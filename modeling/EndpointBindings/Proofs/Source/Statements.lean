import EndpointBindings.Proofs.Source.Declarations

/-!
# Statements of files

What a file says is read off its tokens.  It is a sequence of statements, each up to its semicolon,
and comments say nothing.  A statement takes names from a module, or gives a name to a value: to a
validator, an endpoint with its members, a table of names by path, or the client.

The reader takes more than a generator writes: a name may be given twice, and a list of names may be
empty or end with a comma.  A statement has its tokens (`Statement.tokens`), which are read as the
statement whatever follows (`readStatements_tokens`).  So what the pieces of a file say is put
together from what its parts say (`Says`).
-/

namespace EndpointBindings.Source

open Validator (Expr fieldTokens parseTokens)

/-- What a name is given to. -/
inductive Value where
  | validator (e : Expr)
  -- an endpoint; there may be nothing that its response has to be
  | endpoint (verb : String) (response : Option Expr) (members : List (String × Expr))
  -- names by path
  | table (groups : List (String × List String))
  -- the client, with its address and the names of its tables
  | client (baseUrl fetches mutates : String)

inductive Statement where
  | taken (names : List String) (module : String)
  | declared (exported : Bool) (ident : String) (value : Value)

/-- The name that an endpoint is given. -/
def Statement.bound? : Statement → Option String
  | declared _ ident (.endpoint _ _ _) => some ident
  | _ => none

/-- The names that a table lists. -/
def Statement.listed : Statement → List String
  | declared _ _ (.table groups) => groups.flatMap (·.2)
  | _ => []

/-- The name that other modules may take. -/
def Statement.exported? : Statement → Option String
  | declared true ident _ => some ident
  | _ => none

/-! ## Tokens of statements -/

/-- Names with commas between them. -/
def nameTokens (names : List String) : List Validator.Token :=
  (names.map .name).intersperse .comma

/-- A path with its names. -/
def groupTokens (group : String × List String) : List Validator.Token :=
  [.text group.1, .colon, .opening .square] ++ nameTokens group.2 ++ [.closing .square, .comma]

def Value.tokens : Value → List Validator.Token
  | validator e => e.tokens
  | endpoint verb response members =>
      [.name "createApiEndpoint", .opening .round, .opening .curly, .name "method", .colon,
        .text verb, .comma, .name "response", .colon] ++ responseTokens response ++ [.comma] ++
        fieldTokens members ++ [.closing .curly, .closing .round]
  | table groups =>
      .opening .curly :: groups.flatMap groupTokens ++ [.closing .curly, .name "as", .name "const"]
  | client baseUrl fetches mutates =>
      [.name "createApi", .opening .round, .opening .curly, .name "baseUrl", .colon, .text baseUrl,
        .comma, .name fetches, .comma, .name mutates, .comma, .closing .curly, .closing .round]

/-- The tokens of a statement before its semicolon. -/
def Statement.front : Statement → List Token
  | taken names module =>
      List.map .code ([.name "import", .opening .curly] ++ nameTokens names ++
        [.closing .curly, .name "from", .text module])
  | declared exported ident value =>
      (if exported then [.code (.name "export")] else []) ++
        [.code (.name "const"), .code (.name ident), .assign] ++ value.tokens.map .code

def Statement.tokens (s : Statement) : List Token := s.front ++ [.semicolon]

/-! ## Reading -/

def Token.code? : Token → Option Validator.Token
  | .code t => some t
  | _ => none

/-- Names up to the end of their list, and the module behind it. -/
def readImport : List Validator.Token → Option (List String × String)
  | [.closing .curly, .name "from", .text module] => some ([], module)
  | [.name a, .closing .curly, .name "from", .text module] => some ([a], module)
  | .name a :: .comma :: ts => (readImport ts).map fun r => (a :: r.1, r.2)
  | _ => none

/-- The groups of a table up to its end; first what has been read of the group at hand. -/
def readGroups : Option (String × List String) → List Validator.Token →
    Option (List (String × List String))
  | none, [.closing .curly, .name "as", .name "const"] => some []
  | none, .text path :: .colon :: .opening .square :: ts => readGroups (some (path, [])) ts
  | some group, .closing .square :: .comma :: ts => (readGroups none ts).map (group :: ·)
  | some (path, names), .name a :: .comma :: ts => readGroups (some (path, names ++ [a])) ts
  | some (path, names), .name a :: .closing .square :: .comma :: ts =>
      (readGroups none ts).map ((path, names ++ [a]) :: ·)
  | _, _ => none

/-- Members that have validators, up to the end of the call that they are given to. -/
def readMembers (ts : List Validator.Token) : Option (List (String × Expr)) :=
  match Validator.run (.fields [] []) ts with
  | some (.after (.object members) []) => some members
  | _ => none

/-- What stands for a response that there is none of, and the members behind it. -/
def readVoid : List Validator.Token → Option (Option Expr × List (String × Expr))
  | .name "response" :: .colon :: .name "z" :: .dot :: .name "void" :: .opening .round ::
      .closing .round :: .comma :: ts => (readMembers ts).map fun members => (none, members)
  | _ => none

/-- The response of an endpoint and its other members. -/
def readResponse (ts : List Validator.Token) : Option (Option Expr × List (String × Expr)) :=
  match readMembers ts with
  | some (("response", e) :: members) => some (some e, members)
  | _ => readVoid ts

/-- A value that is not a validator. -/
def readBuilt : List Validator.Token → Option Value
  | .name "createApiEndpoint" :: .opening .round :: .opening .curly :: .name "method" :: .colon ::
      .text verb :: .comma :: ts =>
        (readResponse ts).map fun r => .endpoint verb r.1 r.2
  | [.name "createApi", .opening .round, .opening .curly, .name "baseUrl", .colon, .text baseUrl,
      .comma, .name fetches, .comma, .name mutates, .comma, .closing .curly, .closing .round] =>
        some (.client baseUrl fetches mutates)
  | .opening .curly :: ts => (readGroups none ts).map .table
  | _ => none

def readValue (ts : List Validator.Token) : Option Value :=
  match parseTokens ts with
  | some e => some (.validator e)
  | none => readBuilt ts

/-- A declaration behind the word that starts it. -/
def readDeclared (exported : Bool) : List Token → Option Statement
  | .code (.name ident) :: .assign :: ts =>
      ((ts.mapM Token.code?).bind readValue).map (.declared exported ident)
  | _ => none

/-- A statement without its semicolon. -/
def readStatement : List Token → Option Statement
  | .code (.name "import") :: .code (.opening .curly) :: ts =>
      ((ts.mapM Token.code?).bind readImport).map fun r => .taken r.1 r.2
  | .code (.name "export") :: .code (.name "const") :: ts => readDeclared true ts
  | .code (.name "const") :: ts => readDeclared false ts
  | _ => none

/-- The statements of tokens; first what has been read of the statement at hand. -/
def readStatements (front : List Token) : List Token → Option (List Statement)
  | [] => if front = [] then some [] else none
  | .comment _ :: ts => readStatements front ts
  | .semicolon :: ts =>
      (readStatement front).bind fun s => (readStatements [] ts).map (s :: ·)
  | t :: ts => readStatements (front ++ [t]) ts

/-- What a file says. -/
def statements? (text : String) : Option (List Statement) := (lex text).bind (readStatements [])

/-! ## What is written is read -/

theorem mapM_code? (ts : List Validator.Token) :
    (ts.map Token.code).mapM Token.code? = some ts := by
  induction ts with
  | nil => rfl
  | cons t ts ih => rw [List.map_cons, List.mapM_cons, ih]; rfl

theorem readImport_names (module : String) : ∀ names : List String,
    readImport (nameTokens names ++ [.closing .curly, .name "from", .text module]) =
      some (names, module)
  | [] => rfl
  | [_] => rfl
  | a :: b :: names => by
      show (readImport (nameTokens (b :: names) ++ _)).map _ = _
      rw [readImport_names module (b :: names)]
      rfl

theorem readGroups_names (path : String) (rest : List Validator.Token) :
    ∀ names before : List String,
      readGroups (some (path, before)) (nameTokens names ++ .closing .square :: .comma :: rest) =
        (readGroups none rest).map ((path, before ++ names) :: ·)
  | [], before => by rw [List.append_nil]; rfl
  | [_], _ => rfl
  | a :: b :: names, before => by
      show readGroups (some (path, before ++ [a])) (nameTokens (b :: names) ++ _) = _
      rw [readGroups_names path rest (b :: names), List.append_assoc, List.singleton_append]

theorem readGroups_groups (groups : List (String × List String)) :
    readGroups none (groups.flatMap groupTokens ++ [.closing .curly, .name "as", .name "const"]) =
      some groups := by
  induction groups with
  | nil => rfl
  | cons group groups ih =>
      obtain ⟨path, names⟩ := group
      have hnames := readGroups_names path (groups.flatMap groupTokens ++
        [.closing .curly, .name "as", .name "const"]) names []
      rw [ih] at hnames
      rw [List.flatMap_cons, groupTokens]
      simp only [List.append_assoc, List.cons_append, List.nil_append]
      exact hnames

theorem readMembers_tokens (members : List (String × Expr)) :
    readMembers (fieldTokens members ++ [Validator.Token.closing .curly, .closing .round]) =
      some members := by
  rw [readMembers, Validator.run_fieldTokens]
  rfl

theorem readResponse_tokens (response : Option Expr) (members : List (String × Expr)) :
    readResponse ([Validator.Token.name "response", .colon] ++ responseTokens response ++
      [Validator.Token.comma] ++ fieldTokens members ++
        [Validator.Token.closing .curly, .closing .round]) = some (response, members) := by
  cases response with
  | none =>
      -- no expression starts with what stands for a response that there is none of
      have hnone : ∀ ts, readMembers ([Validator.Token.name "response", .colon] ++
          responseTokens none ++ [Validator.Token.comma] ++ ts) = none := fun _ => rfl
      rw [readResponse, List.append_assoc, hnone]
      show (readMembers (fieldTokens members ++ _)).map _ = _
      rw [readMembers_tokens]
      rfl
  | some e =>
      have hkey : Validator.keyToken "response" = .name "response" := by decide
      have hall := readMembers_tokens (("response", e) :: members)
      rw [fieldTokens, hkey] at hall
      simp only [List.append_assoc, List.cons_append] at hall
      simp only [responseTokens, List.append_assoc, List.cons_append, List.nil_append]
      rw [readResponse, hall]
      rfl

theorem readBuilt_tokens (value : Value) (h : parseTokens value.tokens = none) :
    readBuilt value.tokens = some value := by
  cases value with
  | validator e => cases (Validator.parseTokens_tokens e).symm.trans h
  | endpoint verb response members =>
      have hread : readBuilt (Value.endpoint verb response members).tokens =
          (readResponse ([Validator.Token.name "response", .colon] ++ responseTokens response ++
            [Validator.Token.comma] ++ fieldTokens members ++
              [Validator.Token.closing .curly, .closing .round])).map
            fun r => .endpoint verb r.1 r.2 := by
        rw [Value.tokens]
        simp only [List.cons_append, List.nil_append]
        rw [readBuilt]
      rw [hread, readResponse_tokens]
      rfl
  | table groups =>
      show (readGroups none (groups.flatMap groupTokens ++ _)).map _ = _
      rw [readGroups_groups]
      rfl
  | client _ _ _ => rfl

theorem readValue_tokens (value : Value) : readValue value.tokens = some value := by
  have hbuilt : ∀ v : Value, parseTokens v.tokens = none → readValue v.tokens = some v := by
    intro v h
    rw [readValue, h]
    exact readBuilt_tokens v h
  cases value with
  | validator e => rw [readValue, Value.tokens, Validator.parseTokens_tokens]
  | endpoint verb response members => exact hbuilt (.endpoint verb response members) rfl
  | table groups => exact hbuilt (.table groups) rfl
  | client baseUrl fetches mutates => exact hbuilt (.client baseUrl fetches mutates) rfl

theorem readStatement_front (s : Statement) : readStatement s.front = some s := by
  cases s with
  | taken names module =>
      show (((List.map .code (nameTokens names ++ _)).mapM Token.code?).bind readImport).map _ = _
      rw [mapM_code?, Option.bind_some, readImport_names]
      rfl
  | declared exported ident value =>
      have hvalue : readDeclared exported
          (.code (.name ident) :: .assign :: value.tokens.map .code) =
            some (.declared exported ident value) := by
        rw [readDeclared, mapM_code?, Option.bind_some, readValue_tokens]
        rfl
      cases exported <;> exact hvalue

/-- Tokens that neither end a statement nor are passed over. -/
theorem readStatements_append {ts : List Token}
    (h : ∀ t ∈ ts, t = .assign ∨ ∃ u, t = .code u) (front rest : List Token) :
    readStatements front (ts ++ rest) = readStatements (front ++ ts) rest := by
  induction ts generalizing front with
  | nil => rw [List.append_nil, List.nil_append]
  | cons t ts ih =>
      obtain ⟨ht, hts⟩ := List.forall_mem_cons.1 h
      have hstep : readStatements front (t :: (ts ++ rest)) =
          readStatements (front ++ [t]) (ts ++ rest) := by
        rcases ht with rfl | ⟨u, rfl⟩ <;> rfl
      rw [List.cons_append, hstep, ih hts, List.append_assoc, List.singleton_append]

theorem Statement.mem_front {s : Statement} {t : Token} (h : t ∈ s.front) :
    t = .assign ∨ ∃ u, t = .code u := by
  have hcode : ∀ {ts : List Validator.Token}, t ∈ ts.map Token.code →
      t = .assign ∨ ∃ u, t = .code u := by
    intro ts ht
    obtain ⟨u, -, rfl⟩ := List.mem_map.1 ht
    exact .inr ⟨u, rfl⟩
  cases s with
  | taken names module => exact hcode h
  | declared exported ident value =>
      rcases List.mem_append.1 h with h | h
      · rcases List.mem_append.1 h with h | h
        · cases exported with
          | true => exact .inr ⟨_, List.mem_singleton.1 h⟩
          | false => exact absurd h List.not_mem_nil
        · simp only [List.mem_cons, List.not_mem_nil, or_false] at h
          rcases h with rfl | rfl | rfl
          · exact .inr ⟨_, rfl⟩
          · exact .inr ⟨_, rfl⟩
          · exact .inl rfl
      · exact hcode h

/-- **The tokens of a statement are read as the statement**, whatever follows. -/
theorem readStatements_tokens (s : Statement) (rest : List Token) :
    readStatements [] (s.tokens ++ rest) = (readStatements [] rest).map (s :: ·) := by
  rw [Statement.tokens, List.append_assoc, readStatements_append fun _ => Statement.mem_front]
  show (readStatement s.front).bind _ = _
  rw [readStatement_front]
  rfl

/-! ## Statements of pieces -/

/-- Pieces say statements and no others, whatever follows. -/
def Says (ps : List Piece) (ss : List Statement) : Prop :=
  ∀ rest, readStatements [] (ps.map Piece.token ++ rest) = (readStatements [] rest).map (ss ++ ·)

/-- What a text says whose pieces are known. -/
theorem Says.statements? {text : String} {ps : List Piece} {ss : List Statement} (h : Says ps ss)
    (htext : Shows text ps) : statements? text = some ss := by
  have hread := h []
  rw [List.append_nil] at hread
  rw [Source.statements?, htext.lex, Option.bind_some, hread]
  show some (ss ++ []) = some ss
  rw [List.append_nil]

theorem says_nil : Says [] [] := by
  intro rest
  show readStatements [] rest = (readStatements [] rest).map _
  cases readStatements [] rest <;> rfl

theorem Says.append {ps qs : List Piece} {ss us : List Statement} (h : Says ps ss)
    (h' : Says qs us) : Says (ps ++ qs) (ss ++ us) := by
  intro rest
  rw [List.map_append, List.append_assoc, h, h', Option.map_map]
  simp only [Function.comp_def, List.append_assoc]

/-- A comment says nothing. -/
theorem says_comment {piece : Piece} {text : String} (h : piece.token = .comment text) :
    Says [piece] [] := by
  intro rest
  show readStatements [] (piece.token :: rest) = _
  rw [h]
  exact says_nil rest

theorem says_statement {ps : List Piece} {s : Statement} (h : ps.map Piece.token = s.tokens) :
    Says ps [s] := by
  intro rest
  rw [h, readStatements_tokens]
  rfl

theorem Says.flatMap {α : Type} {f : α → List Piece} {g : α → Statement}
    (h : ∀ a, Says (f a) [g a]) (as : List α) : Says (as.flatMap f) (as.map g) := by
  induction as with
  | nil => exact says_nil
  | cons a as ih => exact (h a).append ih

theorem map_token_names (names : List String) :
    (separated (names.map .name)).map Piece.token = (nameTokens names).map .code := by
  rw [map_token_separated, nameTokens, map_intersperse, List.map_map, List.map_map]
  rfl

theorem says_import (names : List String) (module : String) :
    Says (importPieces (names.map .name) module) [.taken names module] := by
  refine says_statement ?_
  simp [importPieces, Statement.tokens, Statement.front, map_token_names, semicolon,
    Piece.token]

theorem says_fixedImport (names : List String) (module : String) :
    Says (importPieces (fixedNames names) module) [.taken names module] := by
  have hnames : (separated (fixedNames names)).map Piece.token =
      (separated (names.map .name)).map Piece.token := by
    rw [map_token_separated, map_token_separated, fixedNames, code, List.map_map, List.map_map,
      List.map_map]
    rfl
  have h := says_import names module
  simp only [Says, importPieces, List.map_append, hnames] at h ⊢
  exact h

theorem says_schema (schema : String × Expr) :
    Says (schemaPieces schema) [.declared true schema.1 (.validator schema.2)] := by
  refine says_statement ?_
  simp [schemaPieces, Statement.tokens, Statement.front, Value.tokens, map_token_exprPieces,
    semicolon, assign, Piece.token]

theorem memberTokens_eq (key : String) (e : Option Expr) :
    memberTokens key e = fieldTokens (e.toList.map fun e => (key, e)) := by
  cases e with
  | none => simp [memberTokens, fieldTokens]
  | some e => simp [memberTokens, fieldTokens]

theorem fieldTokens_append (fields more : List (String × Expr)) :
    fieldTokens (fields ++ more) = fieldTokens fields ++ fieldTokens more := by
  induction fields with
  | nil => simp [fieldTokens]
  | cons field fields ih =>
      obtain ⟨key, e⟩ := field
      rw [List.cons_append, fieldTokens, fieldTokens, ih]
      simp

/-- What the name of an endpoint is given to. -/
def EndpointPlan.value (e : EndpointPlan) : Value :=
  .endpoint e.verb.text e.response
    (e.body.toList.map (fun body => ("body", body)) ++
      e.query.toList.map fun query => ("query", query))

theorem EndpointPlan.map_token_pieces (e : EndpointPlan) (binding : List Piece) :
    (e.pieces binding).map Piece.token =
      binding.map Piece.token ++ Token.assign :: e.value.tokens.map .code ++
        [Token.semicolon] := by
  have hmethod : Validator.keyToken "method" = .name "method" := by decide
  have hresponse : Validator.keyToken "response" = .name "response" := by decide
  simp [pieces, members, value, Value.tokens, map_token_memberPieces, map_token_response,
    map_token_member, memberTokens_eq, fieldTokens_append, hmethod, hresponse, assign, semicolon,
    Piece.token, -Option.map_map]

theorem says_named (e : EndpointPlan) : Says e.named [.declared false e.name e.value] := by
  refine says_statement ?_
  simp [EndpointPlan.named, EndpointPlan.map_token_pieces, Statement.tokens, Statement.front,
    Piece.token]

theorem says_exported (e : EndpointPlan) :
    Says e.exported [.declared true e.verb.text e.value] := by
  refine says_statement ?_
  simp [EndpointPlan.exported, EndpointPlan.map_token_pieces, Statement.tokens,
    Statement.front]

/-- The path of a route with the names of its endpoints of a kind, unless there are none. -/
def RoutePlan.group? (fetches : Bool) (r : RoutePlan) : Option (String × List String) :=
  match r.ofKind fetches with
  | [] => none
  | group => some (r.path, group.map (·.name))

theorem map_token_group (fetches : Bool) (r : RoutePlan) :
    (groupPieces fetches r).map Piece.token =
      ((r.group? fetches).toList.flatMap groupTokens).map .code := by
  rw [groupPieces, RoutePlan.group?]
  cases r.ofKind fetches with
  | nil => rfl
  | cons e es =>
      have hnames := map_token_names ((e :: es).map (·.name))
      rw [List.map_map] at hnames
      simp only [List.map_append, Function.comp_def] at hnames ⊢
      rw [hnames]
      simp [groupTokens, Piece.token]

theorem says_table (p : Plan) (binding : String) (fetches : Bool) :
    Says (p.tablePieces binding fetches)
      [.declared true binding (.table (p.routes.filterMap (RoutePlan.group? fetches)))] := by
  have hgroups : (p.routes.flatMap (groupPieces fetches)).map Piece.token =
      ((p.routes.filterMap (RoutePlan.group? fetches)).flatMap groupTokens).map .code := by
    induction p.routes with
    | nil => rfl
    | cons r rs ih =>
        rw [List.flatMap_cons, List.map_append, ih, map_token_group, List.filterMap_cons]
        cases r.group? fetches with
        | none => rfl
        | some group => simp
  refine says_statement ?_
  simp [Plan.tablePieces, hgroups, Statement.tokens, Statement.front, Value.tokens, assign,
    semicolon, Piece.token]

theorem says_client (p : Plan) : Says p.clientPieces
    [.declared true "api" (.client p.baseUrl "fetchEndpoints" "mutateEndpoints")] := by
  refine says_statement ?_
  simp [Plan.clientPieces, Statement.tokens, Statement.front, Value.tokens, assign, semicolon,
    Piece.token]

end EndpointBindings.Source
