import EndpointBindings.Proofs.Output.Imports
import EndpointBindings.Proofs.Source.Template

/-!
# Names in templates

Names of declarations are the one place of a text where it is not written as it is.  They are made
from it: those of endpoints by `sanitize`, those of components' validators by `schemaIdent`
(`Piece.Built`).  The validators of a node name components only, so no template of an API holds
another name (`built_templates`).
-/

namespace EndpointBindings.Source

open TypeScript Validator

/-- A name of a declaration is made by `sanitize`, or is the name of a component's validator. -/
def Piece.Built : Piece → Prop
  | .name ident => ∃ text, ident = sanitize text ∨ ident = schemaIdent text
  | _ => True

/-- Pieces with no other names. -/
def Built (ps : List Piece) : Prop := ∀ piece ∈ ps, piece.Built

@[simp] theorem built_nil : Built [] := fun _ h => absurd h List.not_mem_nil

@[simp] theorem built_cons {piece : Piece} {ps : List Piece} :
    Built (piece :: ps) ↔ piece.Built ∧ Built ps := List.forall_mem_cons

@[simp] theorem built_append {ps qs : List Piece} : Built (ps ++ qs) ↔ Built ps ∧ Built qs := by
  simp only [Built, List.mem_append, or_imp, forall_and]

@[simp] theorem built_code (ts : List Validator.Token) : Built (code ts) := by
  intro piece hpiece
  obtain ⟨t, -, rfl⟩ := List.mem_map.1 hpiece
  exact trivial

@[simp] theorem built_fixed (t : Token) : (Piece.fixed t).Built := trivial

@[simp] theorem built_literal (text : String) : (Piece.literal text).Built := trivial

@[simp] theorem built_key (property : String) : (Piece.key property).Built := trivial

@[simp] theorem built_route (path : String) : (Piece.route path).Built := trivial

theorem built_schemaIdent (component : String) : (Piece.name (schemaIdent component)).Built :=
  ⟨component, .inr rfl⟩

theorem built_flatMap {α : Type} {f : α → List Piece} {as : List α} (h : ∀ a ∈ as, Built (f a)) :
    Built (as.flatMap f) := by
  intro piece hpiece
  obtain ⟨a, ha, hpiece⟩ := List.mem_flatMap.1 hpiece
  exact h a ha piece hpiece

theorem built_separated : ∀ {ps : List Piece}, Built ps → Built (separated ps)
  | [], h => h
  | [_], h => h
  | p :: q :: ps, h => by
      obtain ⟨hp, hrest⟩ := built_cons.1 h
      exact built_cons.2 ⟨hp, built_cons.2 ⟨trivial, built_separated hrest⟩⟩

theorem built_names {idents : List String} (h : ∀ ident ∈ idents, (Piece.name ident).Built) :
    Built (separated (idents.map .name)) :=
  built_separated (List.forall_mem_map.2 h)

mutual

/-- The names of an expression are those that it refers to. -/
theorem built_exprPieces : ∀ {e : Expr}, (∀ ident ∈ e.lazyNames, (Piece.name ident).Built) →
    Built (exprPieces e)
  | .plain p, _ => by simp [exprPieces]
  | .enum values, _ => by
      have hvalues : Built (separated (values.map .literal)) :=
        built_separated (List.forall_mem_map.2 fun _ _ => trivial)
      simp [exprPieces, hvalues]
  | .array items, h => by
      rw [Expr.lazyNames] at h
      simp [exprPieces, built_exprPieces h]
  | .object fields, h => by
      rw [Expr.lazyNames] at h
      simp [exprPieces, built_fieldPieces h]
  | .intersection left right, h => by
      rw [Expr.lazyNames, List.forall_mem_append] at h
      simp [exprPieces, built_exprPieces h.1, built_exprPieces h.2]
  | .lazy ident, h => by
      rw [Expr.lazyNames, List.forall_mem_singleton] at h
      simp [exprPieces, h]
  | .mark e m, h => by
      rw [Expr.lazyNames] at h
      simp [exprPieces, built_exprPieces h]
  | .bound e b limit, h => by
      rw [Expr.lazyNames] at h
      simp [exprPieces, built_exprPieces h]
  | .describe e text, h => by
      rw [Expr.lazyNames] at h
      simp [exprPieces, built_exprPieces h]
  | .or left right, h => by
      rw [Expr.lazyNames, List.forall_mem_append] at h
      simp [exprPieces, built_exprPieces h.1, built_exprPieces h.2]

theorem built_fieldPieces : ∀ {fields : List (String × Expr)},
    (∀ ident ∈ lazyNamesOfFields fields, (Piece.name ident).Built) → Built (fieldPieces fields)
  | [], _ => by simp [fieldPieces]
  | (key, e) :: fields, h => by
      rw [lazyNamesOfFields, List.forall_mem_append] at h
      simp [fieldPieces, built_exprPieces h.1, built_fieldPieces h.2]

end

theorem built_validator (known : List String) (n : Node) :
    Built (exprPieces (validatorOf known n)) := by
  refine built_exprPieces fun ident hident => ?_
  have hnames := ((n.mem_lazyNames known ident 0 true).1 hident).names
  obtain ⟨component, -, rfl⟩ := hnames.known
  exact built_schemaIdent component

/-- A member of an endpoint's declaration that may be absent. -/
theorem built_member (known : List String) (key : String) (n : Option Node) :
    Built ((((n.map (validatorOf known)).map exprPieces).map (memberPieces key)).getD []) := by
  cases n with
  | none => exact built_nil
  | some n => simp [memberPieces, built_validator]

theorem built_pieces (known : List String) (path : String) (entry : Verb × Endpoint)
    {binding : List Piece} (h : Built binding) :
    Built ((EndpointPlan.of known path entry).pieces binding) := by
  obtain ⟨key, e⟩ := entry
  have hresponse :
      Built (((e.response.map (validatorOf known)).map exprPieces).getD voidPieces) := by
    cases e.response with
    | none => exact built_code _
    | some n => exact built_validator known n
  have hmembers : Built (EndpointPlan.of known path (key, e)).members := by
    rw [EndpointPlan.members, built_append, built_append, built_append]
    refine ⟨⟨⟨?_, ?_⟩, built_member known "body" e.body⟩, built_member known "query" e.queryNode⟩
    · simp [memberPieces]
    · rw [memberPieces, built_append, built_append]
      exact ⟨⟨built_code _, hresponse⟩, built_code _⟩
  simp [EndpointPlan.pieces, assign, semicolon, h, hmembers]

theorem built_schemas (api : Api) : Built ((Plan.of api).schemas.flatMap schemaPieces) := by
  rw [Plan.of, List.flatMap_map]
  refine built_flatMap fun schema _ => ?_
  simp [schemaPieces, assign, semicolon, built_schemaIdent, built_validator]

theorem built_import {names : List Piece} (h : Built (separated names)) (module : String) :
    Built (importPieces names module) := by
  simp [importPieces, semicolon, h]

theorem built_fixedImport (names : List String) (module : String) :
    Built (importPieces (fixedNames names) module) :=
  built_import (built_separated (built_code _)) module

/-! ## Files -/

/-- The names that a route takes from the schemas are names of components' validators. -/
theorem exists_schemaIdent_of_mem_importsOf {known : List String} {es : Endpoints} {ident : String}
    (h : ident ∈ importsOf known es) : ∃ component, schemaIdent component = ident := by
  obtain ⟨entry, -, node, -, hnames⟩ := mem_importsOf.1 h
  obtain ⟨component, -, hident⟩ := hnames.known
  exact ⟨component, hident⟩

/-- The declarations of a route's endpoints, under their names. -/
theorem built_declarations (api : Api) (fetches : Bool) : Built
    ((Plan.of api).routes.flatMap fun r => (r.ofKind fetches).flatMap EndpointPlan.named) := by
  rw [Plan.of, List.flatMap_map]
  refine built_flatMap fun route _ => ?_
  rw [RoutePlan.ofKind, RoutePlan.of, List.filter_map, List.flatMap_map]
  refine built_flatMap fun entry _ => built_pieces api.known route.1 entry ?_
  have hname : (Piece.name (entry.2.name route.1)).Built := ⟨_, .inl rfl⟩
  rw [built_append, built_cons]
  exact ⟨built_code _, hname, built_nil⟩

theorem built_table (api : Api) (binding : String) (fetches : Bool) :
    Built ((Plan.of api).tablePieces binding fetches) := by
  have hgroups : Built ((Plan.of api).routes.flatMap (groupPieces fetches)) := by
    rw [Plan.of, List.flatMap_map]
    refine built_flatMap fun route _ => ?_
    have hnames : Built (separated
        (((RoutePlan.of api.known route).ofKind fetches).map fun e => .name e.name)) := by
      rw [RoutePlan.ofKind, RoutePlan.of, List.filter_map]
      refine built_separated (List.forall_mem_map.2 fun e he => ?_)
      obtain ⟨entry, -, rfl⟩ := List.mem_map.1 he
      exact ⟨_, .inl rfl⟩
    rw [groupPieces]
    split
    · exact built_nil
    · simp [hnames, -List.map_map]
  simp [Plan.tablePieces, assign, semicolon, hgroups]

theorem built_routeFile (api : Api) (clientModule : String) (route : String × Endpoints) :
    Built ((RoutePlan.of api.known route).file clientModule) := by
  have himports : Built (importPieces ((importsOf api.known route.2).map .name) "./schemas") := by
    refine built_import (built_names fun ident hident => ?_) "./schemas"
    obtain ⟨component, rfl⟩ := exists_schemaIdent_of_mem_importsOf hident
    exact built_schemaIdent component
  have hendpoints :
      Built ((RoutePlan.of api.known route).endpoints.flatMap EndpointPlan.exported) := by
    rw [RoutePlan.of, List.flatMap_map]
    exact built_flatMap fun entry _ => built_pieces api.known route.1 entry (built_code _)
  rw [RoutePlan.file, built_append, built_append]
  refine ⟨⟨?_, ?_⟩, hendpoints⟩
  · simp [banner, built_fixedImport]
  · split
    · exact built_nil
    · exact himports

/-- **Every name in a file is made from a text.** -/
theorem built_templates (api : Api) (options : Options) :
    ∀ ps ∈ (Plan.of api).templates options, Built ps := by
  rw [Plan.templates]
  cases options.mode with
  | singleFile =>
      rw [List.forall_mem_singleton]
      simp [Plan.singleFile, Plan.clientPieces, banner, assign, semicolon, built_fixedImport,
        built_schemas, built_declarations, built_table]
  | fileBased =>
      refine List.forall_mem_cons.2 ⟨?_, List.forall_mem_map.2 fun route hroute => ?_⟩
      · simp [Plan.schemasFile, banner, built_fixedImport, built_schemas]
      · obtain ⟨route, -, rfl⟩ := List.mem_map.1 hroute
        exact built_routeFile api options.clientModule route

end EndpointBindings.Source
