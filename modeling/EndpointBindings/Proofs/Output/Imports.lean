import EndpointBindings.Output.Render
import EndpointBindings.Proofs.Node.Traversal
import EndpointBindings.Proofs.Validator.Names

/-!
# Every name that is used is declared

A validator names the validators of components, and a file in which such a name is declared nowhere
does not compile.  In one file the components are declared beside everything else.  In many files
they are declared in the file of the schemas, and a route takes from there what it needs.

What a route needs is found by a search of its own, which knows neither how deep is emitted nor what
the emitted text looks like.  Still it finds every name that the route's validators use, and, as
long as no node is too deep to be emitted, no other (`references_resolved`).

The names are read off the emitted texts (`Validator.Uses`).  That a name is declared is said of the
text of the file (`Api.DeclaredIn`).
-/

namespace EndpointBindings

open Validator

/-! ## What a route takes from the schemas -/

/-- One reference: the validator of a known component is added unless it is there already. -/
theorem addImports_cons (known imports : List String) (target : String) (refs : List String) :
    addImports known imports (target :: refs) =
      addImports known
        (if refName target ∈ known ∧ schemaIdent (refName target) ∉ imports then
          imports ++ [schemaIdent (refName target)]
        else imports) refs := by
  rw [addImports, List.foldl_cons, ← addImports]
  simp only [Bool.and_eq_true, Bool.not_eq_true', List.contains_iff_mem, ← Bool.not_eq_true]

theorem mem_addImports {known : List String} {name : String} {refs imports : List String} :
    name ∈ addImports known imports refs ↔
      name ∈ imports ∨ ∃ target ∈ refs, refName target ∈ known ∧
        schemaIdent (refName target) = name := by
  induction refs generalizing imports with
  | nil => simp [addImports]
  | cons target refs ih =>
      rw [addImports_cons, ih]
      simp only [List.mem_cons, exists_eq_or_imp, ← or_assoc]
      refine or_congr_left ?_
      split
      · next h => simp [h.1, eq_comm]
      · next h =>
          constructor
          · exact .inl
          · rintro (hname | ⟨hknown, rfl⟩)
            · exact hname
            · exact Classical.byContradiction fun hfresh => h ⟨hknown, hfresh⟩

theorem nodup_addImports (known : List String) {imports : List String} (h : imports.Nodup)
    (refs : List String) : (addImports known imports refs).Nodup := by
  induction refs generalizing imports with
  | nil => exact h
  | cons target refs ih =>
      rw [addImports_cons]
      refine ih ?_
      split
      · next hnew =>
          rw [List.nodup_append]
          refine ⟨h, by simp, ?_⟩
          rintro name hname name' hname' rfl
          rw [List.mem_singleton] at hname'
          exact hnew.2 (hname' ▸ hname)
      · exact h

/-- One endpoint after another, each searched by itself. -/
theorem mem_foldl_addImports {known : List String} {name : String} {es : Endpoints}
    {imports : List String} :
    name ∈ es.foldl (fun imports (_, e) =>
        addImports known imports (collectRefsOfAll [] e.nodes)) imports ↔
      name ∈ imports ∨ ∃ entry ∈ es, ∃ node ∈ entry.2.nodes, node.Names known name := by
  induction es generalizing imports with
  | nil => simp
  | cons entry es ih =>
      have hentry : (∃ target ∈ collectRefsOfAll [] entry.2.nodes, refName target ∈ known ∧
          schemaIdent (refName target) = name) ↔
            ∃ node ∈ entry.2.nodes, node.Names known name := by
        constructor
        · rintro ⟨target, htarget, hname⟩
          rw [mem_collectRefsOfAll] at htarget
          obtain ⟨node, hnode, hrefers⟩ := htarget.resolve_left List.not_mem_nil
          exact ⟨node, hnode, target, hrefers, hname⟩
        · rintro ⟨node, hnode, target, hrefers, hname⟩
          exact ⟨target, (mem_collectRefsOfAll target _ _).2 (.inr ⟨node, hnode, hrefers⟩), hname⟩
      rw [List.foldl_cons, ih, mem_addImports, hentry, or_assoc]
      simp only [List.mem_cons, exists_eq_or_imp]

theorem mem_importsOf {known : List String} {name : String} {es : Endpoints} :
    name ∈ importsOf known es ↔ ∃ entry ∈ es, ∃ node ∈ entry.2.nodes, node.Names known name := by
  rw [importsOf, mem_foldl_addImports]
  simp

theorem nodup_importsOf (known : List String) (es : Endpoints) : (importsOf known es).Nodup := by
  have hfold : ∀ {imports : List String}, imports.Nodup →
      (es.foldl (fun imports (_, e) =>
        addImports known imports (collectRefsOfAll [] e.nodes)) imports).Nodup := by
    induction es with
    | nil => exact fun h => h
    | cons entry es ih =>
        intro imports h
        exact ih (nodup_addImports known h _)
  exact hfold List.nodup_nil

/-! ## What a file declares -/

/-- The file declares the name, as the validator of a component. -/
def Api.DeclaredIn (api : Api) (file : SourceFile) (name : String) : Prop :=
  ∃ component ∈ api.schemas, schemaIdent component.1 = name ∧ ∃ before after, file.contents =
    before ++ ("\nexport const " ++ name ++ " = " ++ component.2.emit api.known true ++ ";\n") ++
      after

theorem exists_append_of_mem_spaced {d : String} {ds : List String} (h : d ∈ ds) :
    ∃ before after, spaced ds = before ++ ("\n" ++ d ++ "\n") ++ after := by
  induction ds with
  | nil => exact absurd h List.not_mem_nil
  | cons d' ds ih =>
      have hcons : spaced (d' :: ds) = "\n" ++ d' ++ "\n" ++ spaced ds := by
        rw [spaced, List.map_cons, String.join_cons, spaced]
      rw [hcons]
      rcases List.mem_cons.1 h with rfl | h
      · exact ⟨"", spaced ds, by rw [String.empty_append]⟩
      · obtain ⟨before, after, he⟩ := ih h
        refine ⟨"\n" ++ d' ++ "\n" ++ before, after, ?_⟩
        rw [he]
        simp only [String.append_assoc]

/-- A file that holds the declarations of the schemas declares every name of a component. -/
theorem Api.declaredIn_of_contents {api : Api} {file : SourceFile} {name : String}
    (hfile : ∃ front back, file.contents = front ++ spaced api.schemaDeclarations ++ back)
    (h : ∃ component ∈ api.known, schemaIdent component = name) : api.DeclaredIn file name := by
  obtain ⟨front, back, hfile⟩ := hfile
  obtain ⟨component, hcomponent, rfl⟩ := h
  obtain ⟨⟨component, node⟩, hmem, rfl⟩ := List.mem_map.1 hcomponent
  have hdeclared := List.mem_map_of_mem (f := fun (p : String × Node) =>
    "export const " ++ schemaIdent p.1 ++ " = " ++ p.2.emit api.known true ++ ";") hmem
  obtain ⟨before, after, he⟩ := exists_append_of_mem_spaced hdeclared
  refine ⟨(component, node), hmem, rfl, front ++ before, after ++ back, ?_⟩
  rw [hfile]
  show front ++ spaced (api.schemas.map fun p =>
    "export const " ++ schemaIdent p.1 ++ " = " ++ p.2.emit api.known true ++ ";") ++ back = _
  rw [he]
  simp only [String.append_assoc]
  rfl

theorem Api.declaredIn_renderSchemas {api : Api} {name : String}
    (h : ∃ component ∈ api.known, schemaIdent component = name) :
    api.DeclaredIn (renderSchemas api) name := by
  refine api.declaredIn_of_contents ⟨banner ++ importLine ["z"] "zod", "", ?_⟩ h
  rw [String.append_empty]
  rfl

theorem Api.declaredIn_renderSingleFile {api : Api} {name : String} (clientModule : String)
    (h : ∃ component ∈ api.known, schemaIdent component = name) :
    api.DeclaredIn (renderSingleFile api clientModule) name := by
  let front := banner ++ importLine ["createApi", "createApiEndpoint"] clientModule ++
    importLine ["z"] "zod"
  let back := spaced (api.declarations true) ++ (spaced (api.declarations false) ++
    (api.endpointMap "fetchEndpoints" true ++
      (api.endpointMap "mutateEndpoints" false ++ api.client)))
  refine api.declaredIn_of_contents ⟨front, back, ?_⟩ h
  simp only [renderSingleFile, front, back, String.append_assoc]

theorem Node.Names.known {known : List String} {n : Node} {name : String}
    (h : n.Names known name) : ∃ component ∈ known, schemaIdent component = name := by
  obtain ⟨target, -, hknown, hname⟩ := h
  exact ⟨refName target, hknown, hname⟩

/-! ## The theorem -/

/-- What holds between the file of a route and the file of the schemas. -/
structure RouteResolved (api : Api) (clientModule path : String) (es : Endpoints)
    (imports : List String) : Prop where
  /-- These are the names that the route's file takes from the schemas. -/
  contents : (renderRoute api clientModule path es).contents =
    banner ++ "// Route: " ++ path ++ "\n" ++ importLine ["createApiEndpoint"] clientModule ++
      importLine ["z"] "zod" ++ (if imports = [] then "" else importLine imports "./schemas") ++
      spaced (es.map fun (_, e) =>
        endpointDeclaration api.known ("export const " ++ e.verb.text) e)
  nodup : imports.Nodup
  /-- Whatever a validator of the route uses is among them. -/
  used : ∀ entry ∈ es, ∀ node ∈ entry.2.nodes, ∀ name,
    Uses (node.emit api.known true) name → name ∈ imports
  /-- The file of the schemas declares them all. -/
  declared : ∀ name ∈ imports, api.DeclaredIn (renderSchemas api) name
  /-- When every node is emitted as a whole, each of them is used. -/
  exact : (∀ entry ∈ es, ∀ node ∈ entry.2.nodes, ∀ d m, node.Below d m → d ≤ maxEmitDepth) →
    ∀ name, name ∈ imports ↔
      ∃ entry ∈ es, ∃ node ∈ entry.2.nodes, Uses (node.emit api.known true) name

theorem routeResolved_importsOf (api : Api) (clientModule path : String) (es : Endpoints) :
    RouteResolved api clientModule path es (importsOf api.known es) where
  contents := by simp only [renderRoute, List.isEmpty_iff]
  nodup := nodup_importsOf api.known es
  used := by
    intro entry hentry node hnode name huses
    exact mem_importsOf.2 ⟨entry, hentry, node, hnode, (Node.uses_emit_iff.1 huses).names⟩
  declared := by
    intro name hname
    obtain ⟨_, -, _, -, h⟩ := mem_importsOf.1 hname
    exact api.declaredIn_renderSchemas h.known
  exact := by
    intro hdepth name
    rw [mem_importsOf]
    constructor
    · rintro ⟨entry, hentry, node, hnode, h⟩
      exact ⟨entry, hentry, node, hnode,
        Node.uses_emit_iff.2 (h.namesAt (hdepth entry hentry node hnode))⟩
    · rintro ⟨entry, hentry, node, hnode, huses⟩
      exact ⟨entry, hentry, node, hnode, (Node.uses_emit_iff.1 huses).names⟩

/-- **Every name that is used is declared.**  A name that a validator uses is declared by the one
file of single-file mode and by the file of the schemas.  A route takes from the schemas names that
are all different and all declared there, among them every one that its validators use, and when
none of its nodes is too deep to be emitted, no others. -/
theorem references_resolved (api : Api) (clientModule : String) :
    (∀ (node : Node) (required : Bool) (name : String),
      Uses (node.emit api.known required) name →
        api.DeclaredIn (renderSingleFile api clientModule) name ∧
          api.DeclaredIn (renderSchemas api) name) ∧
    ∀ route ∈ api.routes,
      RouteResolved api clientModule route.1 route.2 (importsOf api.known route.2) := by
  constructor
  · intro node required name huses
    have hknown := (Node.uses_emit_iff.1 huses).names.known
    exact ⟨api.declaredIn_renderSingleFile clientModule hknown, api.declaredIn_renderSchemas hknown⟩
  · intro route _
    exact routeResolved_importsOf api clientModule route.1 route.2

/-! ### A library -/

def bookRef : Node := .ref "#/components/schemas/Book"

def authorRef : Node := .ref "#/components/schemas/Author"

/-- A list of books. -/
def books : Node := .ofKind (.array (some bookRef))

/-- The books by an author. -/
def listBooks : Endpoint where
  verb := .get
  response := some books
  query := [{ name := "by", node := authorRef }]

/-- Books, each of an author, under one path. -/
def library : Api where
  schemas := [("Author", .ofKind (.string {})), ("Book", .object [("author", authorRef)] [])]
  routes := [("/books", [(.get, listBooks)])]

/-- Nothing stands below what stands in a node whose parts hold nothing. -/
theorem Node.Below.le_one {n m : Node} {d : Nat}
    (h : ∀ child ∈ n.kind.children, child.kind.children = []) (hbelow : n.Below d m) : d ≤ 1 := by
  cases hbelow with
  | here => exact Nat.zero_le 1
  | down hchild hbelow =>
      cases hbelow with
      | here => exact Nat.le_refl 1
      | down hgrandchild _ =>
          rw [h _ hchild] at hgrandchild
          exact absurd hgrandchild List.not_mem_nil

theorem listBooks_depth : ∀ node ∈ listBooks.nodes, ∀ d m, node.Below d m → d ≤ maxEmitDepth := by
  have hflat : ∀ node ∈ listBooks.nodes, ∀ child ∈ node.kind.children,
      child.kind.children = [] := by
    intro node hnode child hchild
    have hnodes : listBooks.nodes = [books, .object [("by", authorRef)] []] := rfl
    rw [hnodes] at hnode
    rcases List.mem_cons.1 hnode with rfl | hnode
    · cases List.mem_singleton.1 hchild
      rfl
    · cases List.mem_singleton.1 hnode
      cases List.mem_singleton.1 hchild
      rfl
  intro node hnode d m hbelow
  exact Nat.le_trans (hbelow.le_one (hflat node hnode)) (by decide)

theorem library_resolved :
    Uses (books.emit library.known true) "BookSchema" ∧
    library.DeclaredIn (renderSingleFile library "./createApi") "BookSchema" ∧
    ("/books", [(Verb.get, listBooks)]) ∈ library.routes ∧
    RouteResolved library "./createApi" "/books" [(.get, listBooks)]
      ["BookSchema", "AuthorSchema"] ∧
    ∃ node ∈ listBooks.nodes, Uses (node.emit library.known true) "AuthorSchema" := by
  have huses : Uses (books.emit library.known true) "BookSchema" := by
    refine Node.uses_emit_iff.2 ⟨1, "#/components/schemas/Book", ?_, by decide, by decide, rfl⟩
    exact Node.refersAt_succ_iff.2 ⟨bookRef, List.mem_singleton_self _,
      Node.refersAt_zero_iff.2 rfl⟩
  have hmem : ("/books", [(Verb.get, listBooks)]) ∈ library.routes := List.mem_cons_self
  have himports : importsOf library.known [(.get, listBooks)] = ["BookSchema", "AuthorSchema"] := by
    decide
  have hdeclared := ((references_resolved library "./createApi").1 books true _ huses).1
  have hroute := (references_resolved library "./createApi").2 _ hmem
  rw [himports] at hroute
  refine ⟨huses, hdeclared, hmem, hroute, ?_⟩
  have hdepth : ∀ entry ∈ [(Verb.get, listBooks)], ∀ node ∈ entry.2.nodes, ∀ d m,
      node.Below d m → d ≤ maxEmitDepth := by
    intro entry hentry
    cases List.mem_singleton.1 hentry
    exact listBooks_depth
  obtain ⟨entry, hentry, node, hnode, h⟩ := (hroute.exact hdepth "AuthorSchema").1 (by decide)
  cases List.mem_singleton.1 hentry
  exact ⟨node, hnode, h⟩

end EndpointBindings
