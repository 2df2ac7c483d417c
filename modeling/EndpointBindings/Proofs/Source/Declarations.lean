import EndpointBindings.Proofs.Source.Template

/-!
# Declarations and their pieces

The parts of a file are read one after another (`Shows`).  A literal and a validator end by
themselves; a name ends at the character behind it (`EndsName`), so a name is always read together
with what follows.  From these come the lines of imports, the declarations of components and of
endpoints, and the entries of the tables, each as the pieces that its plan has for it.
-/

namespace EndpointBindings.Source

open TypeScript Validator

/-- A text is made of these pieces. -/
def Shows (text : String) (ps : List Piece) : Prop := Reads text.toList (ps.map Piece.token)

theorem Shows.append {a b : String} {ps qs : List Piece} (ha : Shows a ps) (hb : Shows b qs) :
    Shows (a ++ b) (ps ++ qs) := by
  rw [Shows, String.toList_append, List.map_append]
  exact Reads.append ha hb

theorem shows_nil : Shows "" [] := rfl

theorem shows_lineEnd : Shows "\n" [] := rfl

/-- Other pieces with the same tokens. -/
theorem Shows.congr {text : String} {ps qs : List Piece} (h : Shows text ps)
    (htokens : ps.map Piece.token = qs.map Piece.token) : Shows text qs := by
  rw [Shows, ← htokens]
  exact h

theorem shows_literal (text : String) : Shows (TypeScript.literal text) [.literal text] :=
  reads_of_lexes (lexes_literal text)

/-- A character that ends a name before it, and its own tokens. -/
structure EndsName (d : Char) (ts : List Validator.Token) : Prop where
  notName : isNameChar d = false
  notLineEnd : d ≠ '\n'
  enters : Validator.enter d = some (ts, .between)

theorem endsName_blank : EndsName ' ' [] := ⟨rfl, by decide, rfl⟩

theorem endsName_comma : EndsName ',' [.comma] := ⟨rfl, by decide, rfl⟩

theorem endsName_closing : EndsName ']' [.closing .square] := ⟨rfl, by decide, rfl⟩

/-- A name goes on to the character behind it. -/
theorem shows_name {ident : String} (hident : isIdentifier ident = true) {d : Char}
    {ts : List Validator.Token} (hd : EndsName d ts) {close : String}
    (hclose : close.toList = [d]) :
    Shows (ident ++ close) (.name ident :: code ts) := by
  have h := reads_of_lexes (lexes_name hident hd.notName hd.notLineEnd hd.enters)
  rw [String.ofList_toList] at h
  rw [Shows, String.toList_append, hclose]
  simpa [Piece.token] using h

theorem shows_name_blank {ident : String} (h : isIdentifier ident = true) :
    Shows (ident ++ " ") [.name ident] := shows_name h endsName_blank rfl

/-- An expression of a validator. -/
theorem shows_emit (known : List String) (n : Node) :
    Shows (n.emit known true) (exprPieces (validatorOf known n)) := by
  rw [Shows, map_token_exprPieces]
  exact reads_of_spells (denotes_node known 0 true n)

/-! ## Lists of names -/

theorem join_cons_cons (sep a b : String) (ss : List String) :
    Text.join sep (a :: b :: ss) = a ++ sep ++ Text.join sep (b :: ss) := by
  have hfold : ∀ (front text : String) (ss : List String),
      ss.foldl (fun text t => text ++ sep ++ t) (front ++ text) =
        front ++ ss.foldl (fun text t => text ++ sep ++ t) text := by
    intro front text ss
    induction ss generalizing text with
    | nil => rfl
    | cons s ss ih =>
        rw [List.foldl_cons, List.foldl_cons, ← ih]
        simp only [String.append_assoc]
  show ss.foldl _ (a ++ sep ++ b) = _
  rw [hfold]
  rfl

/-- Names with commas between them, up to the character behind the last one. -/
theorem shows_join {d : Char} {ts : List Validator.Token} (hd : EndsName d ts) {close : String}
    (hclose : close.toList = [d]) :
    ∀ {names : List String}, names ≠ [] → (∀ ident ∈ names, isIdentifier ident = true) →
      Shows (Text.join ", " names ++ close) (separated (names.map .name) ++ code ts)
  | [], hne, _ => absurd rfl hne
  | [a], _, h => shows_name (h a List.mem_cons_self) hd hclose
  | a :: b :: names, _, h => by
      obtain ⟨ha, hrest⟩ := List.forall_mem_cons.1 h
      have hcomma : Shows (a ++ ",") (.name a :: code [.comma]) :=
        shows_name ha endsName_comma rfl
      have hblank : Shows " " [] := rfl
      have htail := shows_join hd hclose (List.cons_ne_nil b names) hrest
      have htext : Text.join ", " (a :: b :: names) ++ close =
          (a ++ ",") ++ " " ++ (Text.join ", " (b :: names) ++ close) := by
        rw [join_cons_cons]
        simp only [String.append_assoc]
        rfl
      rw [htext]
      exact (hcomma.append hblank).append htail

theorem shows_importLine {names : List String} (hne : names ≠ [])
    (hnames : ∀ ident ∈ names, isIdentifier ident = true) (module : String) :
    Shows (importLine names module) (importPieces (names.map .name) module) := by
  have hopening : Shows "import \x7b " (code [.name "import", .opening .curly]) := rfl
  have hjoined : Shows (Text.join ", " names ++ " ") (separated (names.map .name) ++ code []) :=
    shows_join endsName_blank rfl hne hnames
  have hfrom : Shows "\x7d from " (code [.closing .curly, .name "from"]) := rfl
  have hend : Shows ";\n" [semicolon] := rfl
  have htext : importLine names module = "import \x7b " ++ (Text.join ", " names ++ " ") ++
      "\x7d from " ++ TypeScript.literal module ++ ";\n" := by
    rw [importLine]
    simp only [String.append_assoc]
    rfl
  rw [htext]
  refine ((((hopening.append hjoined).append hfrom).append (shows_literal module)).append
    hend).congr ?_
  simp [importPieces, Piece.token]

/-- Fixed names have the tokens of names. -/
theorem shows_fixedImport {names : List String} (hne : names ≠ [])
    (hnames : ∀ ident ∈ names, isIdentifier ident = true) (module : String) :
    Shows (importLine names module) (importPieces (fixedNames names) module) := by
  refine (shows_importLine hne hnames module).congr ?_
  have htokens : (names.map Piece.name).map Piece.token = (fixedNames names).map Piece.token := by
    rw [fixedNames, code, List.map_map, List.map_map, List.map_map]
    rfl
  simp only [importPieces, List.map_append, map_token_separated, htokens]

/-! ## Declarations -/

theorem spaced_append (ds more : List String) : spaced (ds ++ more) = spaced ds ++ spaced more := by
  rw [spaced, List.map_append, String.join_append, spaced, spaced]

theorem shows_spaced {α : Type} {f : α → String} {g : α → List Piece} {as : List α}
    (h : ∀ a ∈ as, Shows (f a) (g a)) : Shows (spaced (as.map f)) (as.flatMap g) := by
  induction as with
  | nil => exact shows_nil
  | cons a as ih =>
      obtain ⟨ha, has⟩ := List.forall_mem_cons.1 h
      have hcons : spaced ((a :: as).map f) = "\n" ++ f a ++ "\n" ++ spaced (as.map f) := by
        rw [spaced, List.map_cons, List.map_cons, String.join_cons, spaced]
      rw [hcons, List.flatMap_cons]
      have hd := (shows_lineEnd.append ha).append shows_lineEnd
      rw [List.append_nil] at hd
      exact hd.append (ih has)

theorem shows_schema (known : List String) (schema : String × Node) :
    Shows ("export const " ++ schemaIdent schema.1 ++ " = " ++ schema.2.emit known true ++ ";")
      (schemaPieces (schemaIdent schema.1, validatorOf known schema.2)) := by
  have hexport : Shows "export const " (code [.name "export", .name "const"]) := rfl
  have hname := shows_name_blank (isIdentifier_schemaIdent schema.1)
  have hassign : Shows "= " [assign] := rfl
  have hend : Shows ";" [semicolon] := rfl
  have htext : "export const " ++ schemaIdent schema.1 ++ " = " ++ schema.2.emit known true ++ ";" =
      "export const " ++ (schemaIdent schema.1 ++ " ") ++ "= " ++ schema.2.emit known true ++
        ";" := by
    simp only [String.append_assoc]
    rfl
  rw [htext]
  exact (((hexport.append hname).append hassign).append (shows_emit known schema.2)).append hend

/-! ### Endpoints -/

/-- A block between lines is laid out line by line. -/
theorem toList_layOut_block {opening closing : String} {front : List Char} {last : Char}
    (hopening : '\n' ∉ opening.toList) (hclosing : '\n' ∉ closing.toList)
    (hlast : closing.toList = front ++ [last]) (body : List Step) :
    (layOut [.block opening closing body]).toList =
      opening.toList ++ '\n' :: (ofLines (linesOfSteps 1 body)).toList ++ closing.toList := by
  have hline : ∀ text : String, '\n' ∉ text.toList →
      (ofLines (textLines 0 text)).toList = text.toList ++ ['\n'] := by
    intro text htext
    rw [toList_textLines, Text.pieces_of_not_mem htext, List.flatMap_cons, List.flatMap_nil,
      List.append_nil, indentedLine]
    split <;> rfl
  have hlast' : last ≠ '\n' := by
    rintro rfl
    exact hclosing (by rw [hlast]; simp)
  have hends : ∀ cs : List Char, withoutLineEnds (cs ++ (closing.toList ++ ['\n'])) =
      cs ++ closing.toList := by
    intro cs
    rw [withoutLineEnds, hlast]
    simp [hlast']
  rw [layOut, trimLineEnds, String.toList_ofList, linesOfSteps, linesOfSteps, List.append_nil,
    Step.lines, toList_ofLines_append, toList_ofLines_append, hline opening hopening,
    hline closing hclosing]
  show withoutLineEnds _ = _
  rw [hends]
  simp

/-- A member of an object on a line of its own. -/
theorem spells_member {key text : String} (hkey : propertyKey key = key)
    {ts : List Validator.Token} (h : Spells text.toList ts) :
    Spells (key ++ ": " ++ text ++ ",").toList
      ([keyToken key, .colon] ++ ts ++ [Validator.Token.comma]) := by
  have hcomma : Lexes [','] [.comma] := lexes_char (by decide) rfl
  have hmember := ((denotes_key key).spells.append h).append hcomma.spells
  rw [hkey] at hmember
  simpa using hmember

/-- The tokens of a member that may be absent. -/
def memberTokens (key : String) : Option Expr → List Validator.Token
  | none => []
  | some e => [keyToken key, .colon] ++ e.tokens ++ [.comma]

theorem spells_validatorLine (known : List String) {key : String} (hkey : propertyKey key = key)
    (n : Option Node) {steps : List Step} {ts : List Validator.Token} (h : SpellsSteps 1 steps ts) :
    SpellsSteps 1 (validatorLine known key n ++ steps)
      (memberTokens key (n.map (validatorOf known)) ++ ts) := by
  cases n with
  | none => exact h
  | some n => exact .line (spells_member hkey (denotes_node known 0 true n)) h

theorem map_token_memberPieces (key : String) (pieces : List Piece) :
    (memberPieces key pieces).map Piece.token =
      [.code (keyToken key), .code .colon] ++ pieces.map Piece.token ++ [.code .comma] := by
  simp [memberPieces]

theorem map_token_member (key : String) (e : Option Expr) :
    (((e.map exprPieces).map (memberPieces key)).getD []).map Piece.token =
      (memberTokens key e).map .code := by
  cases e with
  | none => rfl
  | some e => simp [memberTokens, map_token_memberPieces, map_token_exprPieces]

theorem spells_void : Spells "z.void()".toList
    [.name "z", .dot, .name "void", .opening .round, .closing .round] := by
  have hz : Lexes ("z".toList ++ ['.']) [.name "z", .dot] := lexes_name rfl rfl (by decide) rfl
  have hvoid : Lexes ("void".toList ++ ['(']) [.name "void", .opening .round] :=
    lexes_name rfl rfl (by decide) rfl
  simpa using ((hz.append hvoid).append lexes_closing).spells

theorem spells_method (verb : Verb) : Spells ("method: '" ++ verb.text ++ "',").toList
    ([keyToken "method", .colon] ++ [.text verb.text] ++ [.comma]) := by
  have hkey : propertyKey "method" = "method" := by decide
  have htext : "method: '" ++ verb.text ++ "'," =
      "method" ++ ": " ++ TypeScript.literal verb.text ++ "," := by cases verb <;> rfl
  rw [htext]
  exact spells_member hkey (lexes_literal verb.text).spells

/-- The tokens of the response's validator, or of what stands for none. -/
def responseTokens : Option Expr → List Validator.Token
  | none => [.name "z", .dot, .name "void", .opening .round, .closing .round]
  | some e => e.tokens

theorem map_token_response (e : Option Expr) :
    ((e.map exprPieces).getD voidPieces).map Piece.token = (responseTokens e).map .code := by
  cases e with
  | none => rfl
  | some e => exact map_token_exprPieces e

/-- The text of the response's validator. -/
def responseText (known : List String) (n : Option Node) : String :=
  match n with
  | some n => n.emit known true
  | none => "z.void()"

theorem spells_response (known : List String) (n : Option Node) :
    Spells (responseText known n).toList (responseTokens (n.map (validatorOf known))) := by
  cases n with
  | none => exact spells_void
  | some n => exact denotes_node known 0 true n

/-- The members of an endpoint's declaration, each on lines of its own. -/
def memberSteps (known : List String) (e : Endpoint) : List Step :=
  [.line ("method: '" ++ e.verb.text ++ "',"),
    .line ("response" ++ ": " ++ responseText known e.response ++ ",")] ++
    validatorLine known "body" e.body ++ validatorLine known "query" e.queryNode

theorem shows_members (known : List String) (path : String) (entry : Verb × Endpoint) :
    Shows (ofLines (linesOfSteps 1 (memberSteps known entry.2)))
      (EndpointPlan.of known path entry).members := by
  obtain ⟨key, e⟩ := entry
  have hresponseKey : propertyKey "response" = "response" := by decide
  have hbodyKey : propertyKey "body" = "body" := by decide
  have hqueryKey : propertyKey "query" = "query" := by decide
  have hquery := spells_validatorLine known hqueryKey e.queryNode (.nil 1)
  have hbody := SpellsSteps.line (spells_method e.verb) (SpellsSteps.line
    (spells_member hresponseKey (spells_response known e.response))
    (spells_validatorLine known hbodyKey e.body hquery))
  rw [List.append_nil, List.append_nil] at hbody
  have htokens : (EndpointPlan.of known path (key, e)).members.map Piece.token = List.map .code
      ([keyToken "method", .colon] ++ [.text e.verb.text] ++ [.comma] ++
        ([keyToken "response", .colon] ++ responseTokens (e.response.map (validatorOf known)) ++
          [.comma] ++ (memberTokens "body" (e.body.map (validatorOf known)) ++
            memberTokens "query" (e.queryNode.map (validatorOf known))))) := by
    rw [EndpointPlan.members]
    simp only [EndpointPlan.of, List.map_append, map_token_memberPieces, map_token_response,
      map_token_member, map_token_code, List.append_assoc]
    rfl
  rw [Shows, htokens]
  exact reads_of_spells hbody

/-- A declaration is its binding and what it binds, which is the same for every binding. -/
theorem endpointDeclaration_eq (known : List String) (e : Endpoint) {binding : String}
    (hline : '\n' ∉ binding.toList) :
    endpointDeclaration known binding e =
      binding ++ (" = createApiEndpoint(\x7b\n" ++
        ofLines (linesOfSteps 1 (memberSteps known e)) ++ "\x7d);") := by
  have honeLine : '\n' ∉ (binding ++ " = createApiEndpoint(\x7b").toList := by
    rw [String.toList_append, List.mem_append, not_or]
    exact ⟨hline, by decide⟩
  have hlast : "\x7d);".toList = "\x7d)".toList ++ [';'] := rfl
  have hblock := toList_layOut_block honeLine (by decide) hlast (memberSteps known e)
  refine String.toList_inj.1 (hblock.trans ?_)
  simp

theorem shows_declaration (known : List String) (path : String) (entry : Verb × Endpoint)
    {binding : String} {bs : List Piece} (hbinding : Shows (binding ++ " ") bs)
    (hline : '\n' ∉ binding.toList) :
    Shows (endpointDeclaration known binding entry.2)
      ((EndpointPlan.of known path entry).pieces bs) := by
  have hcall : Shows "= createApiEndpoint(\x7b"
      ([assign] ++ code [.name "createApiEndpoint", .opening .round, .opening .curly]) := rfl
  have hclosing : Shows "\x7d);" (code [.closing .curly, .closing .round] ++ [semicolon]) := rfl
  have hlaidOut : endpointDeclaration known binding entry.2 =
      (binding ++ " ") ++ "= createApiEndpoint(\x7b" ++ "\n" ++
        ofLines (linesOfSteps 1 (memberSteps known entry.2)) ++ "\x7d);" := by
    rw [endpointDeclaration_eq known entry.2 hline]
    simp only [String.append_assoc]
    rfl
  rw [hlaidOut]
  refine ((((hbinding.append hcall).append shows_lineEnd).append
    (shows_members known path entry)).append hclosing).congr ?_
  rw [EndpointPlan.pieces]
  simp only [List.append_assoc, List.nil_append]

theorem isIdentifier_sanitize (text : String) : isIdentifier (sanitize text) = true := by
  rw [isIdentifier, sanitize, String.toList_ofList]
  exact isNameList_sanitizeList text.toList

theorem isIdentifier_name (path : String) (e : Endpoint) : isIdentifier (e.name path) = true :=
  isIdentifier_sanitize _

theorem lineEnd_not_mem_of_isIdentifier {ident : String} (h : isIdentifier ident = true) :
    '\n' ∉ ident.toList := by
  rw [isIdentifier] at h
  intro hmem
  cases hcs : ident.toList with
  | nil =>
      rw [hcs] at h
      cases h
  | cons c cs =>
      rw [hcs] at h hmem
      rw [isNameList, Bool.and_eq_true, List.all_eq_true] at h
      obtain ⟨hc, hall⟩ := h
      rcases List.mem_cons.1 hmem with rfl | hmem
      · cases hc
      · cases hall _ hmem

/-- The names of endpoints and their verbs are bound on one line. -/
theorem lineEnd_not_mem_named (path : String) (e : Endpoint) :
    '\n' ∉ ("const " ++ e.name path).toList := by
  rw [String.toList_append, List.mem_append, not_or]
  exact ⟨by decide, lineEnd_not_mem_of_isIdentifier (isIdentifier_name path e)⟩

theorem lineEnd_not_mem_exported (verb : Verb) : '\n' ∉ ("export const " ++ verb.text).toList := by
  cases verb <;> decide

theorem shows_named (known : List String) (path : String) (entry : Verb × Endpoint) :
    Shows (endpointDeclaration known ("const " ++ entry.2.name path) entry.2)
      (EndpointPlan.of known path entry).named := by
  have hident := isIdentifier_name path entry.2
  have hconst : Shows "const " (code [.name "const"]) := rfl
  refine shows_declaration known path entry ?_ (lineEnd_not_mem_named path entry.2)
  rw [String.append_assoc]
  exact hconst.append (shows_name_blank hident)

theorem shows_verb (verb : Verb) : Shows ("export const " ++ verb.text ++ " ")
    (code [.name "export", .name "const", .name verb.text]) := by
  cases verb <;> rfl

theorem shows_exported (known : List String) (path : String) (entry : Verb × Endpoint) :
    Shows (endpointDeclaration known ("export const " ++ entry.2.verb.text) entry.2)
      (EndpointPlan.of known path entry).exported :=
  shows_declaration known path entry (shows_verb entry.2.verb)
    (lineEnd_not_mem_exported entry.2.verb)

/-! ## Tables -/

/-- Endpoints of one kind and their plans. -/
theorem ofKind_of (known : List String) (fetches : Bool) (route : String × Endpoints) :
    (RoutePlan.of known route).ofKind fetches =
      (route.2.filter (·.2.verb.isFetch = fetches)).map (EndpointPlan.of known route.1) := by
  show (route.2.map (EndpointPlan.of known route.1)).filter _ = _
  rw [List.filter_map]
  rfl

theorem ofKind_eq (fetches : Bool) (es : Endpoints) :
    ofKind fetches es = (es.filter (·.2.verb.isFetch = fetches)).map (·.2) := by
  rw [ofKind, List.filter_map]
  rfl

theorem shows_group (known : List String) (fetches : Bool) (route : String × Endpoints) :
    Shows (groupLine fetches route.1 route.2)
      (groupPieces fetches (RoutePlan.of known route)) := by
  rw [groupLine, groupPieces, ofKind_of, ofKind_eq]
  cases hkind : route.2.filter (·.2.verb.isFetch = fetches) with
  | nil => exact shows_nil
  | cons entry entries =>
      have hindent : Shows "\n  " [] := rfl
      have hopening : Shows ": [" (code [.colon, .opening .square]) := rfl
      have hcomma : Shows "," (code [.comma]) := rfl
      let idents := (entry :: entries).map fun entry => entry.2.name route.1
      have hidents : ∀ ident ∈ idents, isIdentifier ident = true := by
        intro ident hident
        obtain ⟨e, -, rfl⟩ := List.mem_map.1 hident
        exact isIdentifier_name route.1 e.2
      have hjoined : Shows (Text.join ", " idents ++ "]")
          (separated (idents.map .name) ++ code [.closing .square]) :=
        shows_join endsName_closing rfl (List.cons_ne_nil _ _) hidents
      have htext : "\n  " ++ TypeScript.literal route.1 ++ ": [" ++
          Text.join ", " (((entry :: entries).map (·.2)).map (·.name route.1)) ++ "]," =
          "\n  " ++ TypeScript.literal route.1 ++ ": [" ++ (Text.join ", " idents ++ "]") ++
            "," := by
        rw [List.map_map]
        simp only [String.append_assoc]
        rfl
      show Shows ("\n  " ++ TypeScript.literal route.1 ++ ": [" ++
        Text.join ", " (((entry :: entries).map (·.2)).map (·.name route.1)) ++ "],") _
      rw [htext]
      refine ((((hindent.append (shows_literal route.1)).append hopening).append
        hjoined).append hcomma).congr ?_
      simp [idents, RoutePlan.of, EndpointPlan.of, Piece.token, code, Function.comp_def]

end EndpointBindings.Source
