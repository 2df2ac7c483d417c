import EndpointBindings.Node.Validator
import EndpointBindings.Proofs.Validator.Layout
import EndpointBindings.Proofs.Validator.Parser
import Mathlib.Data.List.Forall2

/-!
# The emitted validator means the node

`Node.exprAt` says which expression a node is to be validated by, as a tree and without a text: the
kind first, then the node's marks around it.  `Node.emitAt` writes a text.  The text is a text of
that expression and of no other, whatever strings the node holds and however deep it is
(`parse_emit`): no text in it ends early, no chain is bound to another start than its own, and no
indentation gets into a token.

The tree is the reference, so it is worth saying what it does not say.  It does not say what values
a validator accepts.  Bounds are the decimals that they are written as, and a name in a `lazy` is
the name that the component is declared under.
-/

namespace EndpointBindings

open TypeScript Validator

/-! ## The reference -/

namespace Validator

/-- The tree of a text. -/
def parse (text : String) : Option Expr := (lex .between text.toList).bind parseTokens

/-- An expression that accepts any value. -/
def unknownExpr : Expr := .plain .unknown

def Expr.withMark (m : Mark) (present : Bool) (e : Expr) : Expr := if present then .mark e m else e

def Expr.withBound (b : Bound) (limit : Option Number) (e : Expr) : Expr :=
  match limit with
  | none => e
  | some n => .bound e b (writtenValue n)

def Expr.withDescription (text : Option String) (e : Expr) : Expr :=
  match text with
  | none => e
  | some text => .describe e text

/-- Expressions combined from the left. -/
def combineExprs (f : Expr → Expr → Expr) : List Expr → Expr
  | [] => unknownExpr
  | e :: es => es.foldl f e

end Validator

def StringRules.expr (r : StringRules) : Expr :=
  if !r.enumValues.isEmpty then .enum r.enumValues
  else if r.format = some "date-time" then .mark (.plain .string) .datetime
  else if r.format = some "email" then .mark (.plain .string) .email
  else
    ((Expr.plain .string).withBound .min (r.minLength.map fun n => .int (.ofNat n))).withBound .max
      (r.maxLength.map fun n => .int (.ofNat n))

def NumberRules.expr (r : NumberRules) : Expr :=
  ((Expr.plain .number).withBound .min r.minimum).withBound .max r.maximum

mutual

/-- The expression of a node: its kind, and then null, the description and that the value may be
missing, from the inside out. -/
def Node.exprAt (known : List String) (depth : Nat) (required : Bool) : Node → Expr
  | ⟨kind, nullable, description⟩ =>
    (((if maxEmitDepth < depth then unknownExpr else kind.exprAt known depth).withMark .nullable
      nullable).withDescription description).withMark .optional !required

/-- The expression of a kind. -/
def Kind.exprAt (known : List String) (depth : Nat) : Kind → Expr
  | .ref target =>
    if known.contains (refName target) then .lazy (schemaIdent (refName target)) else unknownExpr
  | .allOf members => combineExprs .intersection (memberExprs known (depth + 1) members)
  | .oneOf members => combineExprs .or (memberExprs known (depth + 1) members)
  | .nullable inner => .mark (inner.exprAt known (depth + 1) true) .nullable
  | .string rules => rules.expr
  | .number rules => rules.expr
  | .boolean => .plain .boolean
  | .null => .plain .null
  | .array none => .array unknownExpr
  | .array (some items) => .array (items.exprAt known (depth + 1) true)
  | .object properties required =>
    .object (fieldExprs known (depth + 1) required properties)
  | .any => unknownExpr

def memberExprs (known : List String) (depth : Nat) : List Node → List Expr
  | [] => []
  | n :: ns => n.exprAt known depth true :: memberExprs known depth ns

def fieldExprs (known : List String) (depth : Nat) (required : List String) :
    List (String × Node) → List (String × Expr)
  | [] => []
  | (name, n) :: ps =>
    (name, n.exprAt known depth (required.contains name)) :: fieldExprs known depth required ps

end

namespace Validator

/-! ## Texts of expressions -/

/-- The text is one of the expression. -/
def Denotes (text : String) (e : Expr) : Prop := Spells text.toList e.tokens

theorem Denotes.parse {text : String} {e : Expr} (h : Denotes text e) : parse text = some e := by
  rw [Validator.parse, h.lex]
  exact parseTokens_tokens e

theorem lexes_start (s : Start) : Lexes ('z' :: '.' :: (s.name.toList ++ ['('])) s.tokens := by
  have hname : isNameList s.name.toList = true := by
    cases s with
    | plain p => cases p <;> decide
    | enum | array | object | intersection | lazy => decide
  have hz : Lexes ['z', '.'] [.name "z", .dot] := lexes_name (n := ['z']) rfl rfl (by decide) rfl
  have hs : Lexes (s.name.toList ++ ['(']) [.name (String.ofList s.name.toList), .opening .round] :=
    lexes_name hname rfl (by decide) rfl
  rw [String.ofList_toList] at hs
  exact hz.append hs

theorem lexes_call (c : Call) : Lexes ('.' :: (c.name.toList ++ ['('])) c.tokens := by
  have hname : isNameList c.name.toList = true := by
    cases c with
    | mark m => cases m <;> decide
    | bound b => cases b <;> decide
    | describe | or => decide
  have hdot : Lexes ['.'] [.dot] := lexes_char (by decide) rfl
  have hs : Lexes (c.name.toList ++ ['(']) [.name (String.ofList c.name.toList), .opening .round] :=
    lexes_name hname rfl (by decide) rfl
  rw [String.ofList_toList] at hs
  exact hdot.append hs

theorem lexes_closing : Lexes [')'] [.closing .round] := lexes_char (by decide) rfl

theorem denotes_plain {text : String} (p : Plain)
    (htext : text.toList = 'z' :: '.' :: ((Start.plain p).name.toList ++ ['(', ')'])) :
    Denotes text (.plain p) := by
  have h := ((lexes_start (.plain p)).append lexes_closing).spells
  rw [Denotes, Expr.tokens, htext]
  simpa using h

theorem denotes_unknown : Denotes unknown unknownExpr :=
  denotes_plain .unknown (by simp [unknown, Start.name])

theorem denotes_lazy {name : String} (hname : isIdentifier name = true) :
    Denotes ("z.lazy(() => " ++ name ++ ")") (.lazy name) := by
  have hid : Lexes (name.toList ++ [')']) [.name (String.ofList name.toList), .closing .round] :=
    lexes_name hname rfl (by decide) rfl
  rw [String.ofList_toList] at hid
  have hround : Lexes ['(', ')'] [.opening .round, .closing .round] :=
    (lexes_char (by decide) rfl : Lexes ['('] [.opening .round]).append lexes_closing
  have hblank : Lexes [' '] [] := lexes_blanks 1
  have harrow := ((hblank.append lexes_arrow).append hblank).append hid
  rw [Denotes, Expr.tokens, String.toList_append, String.toList_append, List.append_assoc]
  exact (((lexes_start .lazy).append hround).append harrow).spells

theorem denotes_array {text : String} {e : Expr} (h : Denotes text e) :
    Denotes ("z.array(" ++ text ++ ")") (.array e) := by
  rw [Denotes, Expr.tokens, String.toList_append, String.toList_append]
  exact ((lexes_start .array).spells.append h).append lexes_closing.spells

theorem denotes_intersection {a b : String} {e f : Expr} (ha : Denotes a e) (hb : Denotes b f) :
    Denotes (intersection a b) (.intersection e f) := by
  have hcomma : Lexes [',', ' '] [.comma] :=
    (lexes_char (by decide) rfl : Lexes [','] [.comma]).append (lexes_blanks 1)
  have hstart : Lexes "z.intersection(".toList Start.intersection.tokens := by
    simpa [Start.name] using lexes_start .intersection
  have h := ((hstart.spells.append ha).append (hcomma.spells.append hb)).append
    lexes_closing.spells
  have htext : (intersection a b).toList =
      "z.intersection(".toList ++ a.toList ++ ([',', ' '] ++ b.toList) ++ [')'] := by
    unfold intersection
    simp only [String.toList_append, List.append_assoc]
    rfl
  rw [Denotes, Expr.tokens, htext]
  exact h

theorem denotes_or {a b : String} {e f : Expr} (ha : Denotes a e) (hb : Denotes b f) :
    Denotes (union a b) (.or e f) := by
  rw [Denotes, Expr.tokens, union]
  simp only [String.toList_append]
  exact ((ha.append (lexes_call .or).spells).append hb).append lexes_closing.spells

/-- Combining texts from the left is combining their expressions from the left. -/
theorem denotes_combine {f : String → String → String} {g : Expr → Expr → Expr}
    (hfg : ∀ {a b : String} {e e' : Expr}, Denotes a e → Denotes b e' → Denotes (f a b) (g e e'))
    {texts : List String} {es : List Expr} (h : List.Forall₂ Denotes texts es) :
    Denotes (combine f texts) (combineExprs g es) := by
  cases h with
  | nil => exact denotes_unknown
  | @cons a e texts es ha h =>
      show Denotes (texts.foldl f a) (es.foldl g e)
      induction h generalizing a e with
      | nil => exact ha
      | cons hb _ ih => exact ih (hfg ha hb)

/-- A call on a chain, with what is between its brackets. -/
theorem denotes_call {text : String} {e e' : Expr} (h : Denotes text e) (c : Call)
    {argument : List Char} {ts : List Token} (hargument : Lexes argument ts)
    (htokens : e'.tokens = e.tokens ++ c.tokens ++ ts) :
    Spells (text.toList ++ ('.' :: (c.name.toList ++ ['(']) ++ argument)) e'.tokens := by
  rw [htokens, List.append_assoc]
  exact h.append ((lexes_call c).append hargument).spells

theorem denotes_mark (text written : String) {e : Expr} (h : Denotes text e) (m : Mark)
    (hwritten : written.toList = '.' :: ((Call.mark m).name.toList ++ ['(']) ++ [')']) :
    Denotes (text ++ written) (.mark e m) := by
  rw [Denotes, String.toList_append, hwritten]
  exact denotes_call h (.mark m) lexes_closing (by rw [Expr.tokens])

theorem denotes_withMark (text written : String) {e : Expr} (h : Denotes text e) (m : Mark)
    (hwritten : written.toList = '.' :: ((Call.mark m).name.toList ++ ['(']) ++ [')'])
    (present : Bool) :
    Denotes (text ++ if present then written else "") (e.withMark m present) := by
  cases present with
  | true => exact denotes_mark text written h m hwritten
  | false => simpa [Denotes, Expr.withMark] using h

theorem denotes_bound {text : String} {e : Expr} (h : Denotes text e) (b : Bound)
    (limit : Option Number) :
    Denotes (text ++ callWith (Call.bound b).name Number.text limit) (e.withBound b limit) := by
  cases limit with
  | none => simpa [Denotes, callWith, Expr.withBound] using h
  | some n =>
      have hn : Lexes (n.text.toList ++ [')']) [.numeral (writtenValue n), .closing .round] :=
        lexes_numeral (readNumeral?_text n) rfl (by decide) rfl
      have htokens : (Expr.bound e b (writtenValue n)).tokens =
          e.tokens ++ Call.tokens (.bound b) ++
            [Token.numeral (writtenValue n), .closing .round] := by
        rw [Expr.tokens]
      have hb := denotes_call h (.bound b) hn htokens
      simpa [Denotes, callWith, Expr.withBound] using hb

theorem denotes_describe {text : String} {e : Expr} (h : Denotes text e)
    (description : Option String) :
    Denotes (text ++ callWith "describe" literal description) (e.withDescription description) := by
  cases description with
  | none => simpa [Denotes, callWith, Expr.withDescription] using h
  | some d =>
      have htokens : (Expr.describe e d).tokens =
          e.tokens ++ Call.describe.tokens ++ ([Token.text d] ++ [Token.closing .round]) := by
        rw [Expr.tokens]
        rfl
      have hd := denotes_call h .describe ((lexes_literal d).append lexes_closing) htokens
      simpa [Denotes, callWith, Expr.withDescription, Call.name] using hd

theorem textTokens_cons (v : String) (vs : List String) :
    textTokens (v :: vs) = .text v :: vs.flatMap fun w => [.comma, .text w] := by
  induction vs generalizing v with
  | nil => rfl
  | cons w vs ih => rw [textTokens, ih, List.flatMap_cons]; rfl

theorem lexes_literals (values : List String) :
    Lexes (Text.join ", " (values.map literal)).toList (textTokens values) := by
  cases values with
  | nil => exact .nil
  | cons v vs =>
      rw [textTokens_cons]
      have hfold : ∀ {text : String} {ts : List Token}, Lexes text.toList ts →
          Lexes ((vs.map literal).foldl (fun text t => text ++ ", " ++ t) text).toList
            (ts ++ vs.flatMap fun w => [Token.comma, .text w]) := by
        induction vs with
        | nil => intro text ts h; simpa using h
        | cons w vs ih =>
            intro text ts h
            have hcomma : Lexes [',', ' '] [.comma] :=
              (lexes_char (by decide) rfl : Lexes [','] [.comma]).append (lexes_blanks 1)
            have hw : Lexes (text ++ ", " ++ literal w).toList
                (ts ++ [Token.comma] ++ [Token.text w]) := by
              rw [String.toList_append, String.toList_append]
              exact (h.append hcomma).append (lexes_literal w)
            have hrest := ih hw
            simpa using hrest
      exact hfold (lexes_literal v)

theorem denotes_enum (values : List String) :
    Denotes ("z.enum([" ++ Text.join ", " (values.map literal) ++ "])") (.enum values) := by
  have hopening : Lexes ['['] [.opening .square] := lexes_char (by decide) rfl
  have hclosing : Lexes [']'] [.closing .square] := lexes_char (by decide) rfl
  have h := ((((lexes_start .enum).append hopening).append (lexes_literals values)).append
    hclosing).append lexes_closing
  rw [Denotes, Expr.tokens, String.toList_append, String.toList_append]
  simpa [Start.name] using h.spells

theorem denotes_key (name : String) :
    Lexes ((propertyKey name).toList ++ [':', ' ']) [keyToken name, .colon] := by
  have hcolon : Lexes [':', ' '] [.colon] :=
    (lexes_char (by decide) rfl : Lexes [':'] [.colon]).append (lexes_blanks 1)
  rw [propertyKey, keyToken]
  cases hname : isIdentifier name with
  | true =>
      have h : Lexes (name.toList ++ [':']) [.name (String.ofList name.toList), .colon] :=
        lexes_name hname rfl (by decide) rfl
      rw [String.ofList_toList] at h
      simpa using h.append (lexes_blanks 1)
  | false => exact (lexes_literal name).append hcolon

/-- A field on a line of its own. -/
theorem spells_field (name : String) {text : String} {e : Expr} (h : Denotes text e) :
    Spells (propertyKey name ++ ": " ++ text ++ ",").toList
      (keyToken name :: .colon :: e.tokens ++ [Token.comma]) := by
  have hcomma : Lexes [','] [.comma] := lexes_char (by decide) rfl
  have hfield := ((denotes_key name).spells.append h).append hcomma.spells
  simpa using hfield

theorem denotes_object {steps : List Step} {fields : List (String × Expr)}
    (h : SpellsSteps 1 steps (fieldTokens fields)) (hempty : steps = [] → fields = []) :
    Denotes (emitFields steps) (.object fields) := by
  have hopening : Lexes ['\x7b'] [.opening .curly] := lexes_char (by decide) rfl
  have hclosing : Lexes ['\x7d'] [.closing .curly] := lexes_char (by decide) rfl
  have hstart := (lexes_start .object).append hopening
  have hend := hclosing.append lexes_closing
  rw [Denotes, Expr.tokens]
  cases steps with
  | nil =>
      rw [hempty rfl]
      exact (hstart.append hend).spells
  | cons step steps =>
      have hblock := (SpellsSteps.block "z.object(\x7b" "\x7d)" hstart.spells h hend.spells
        (.nil 0)).layOut
      simpa [emitFields] using hblock

/-! ## Nodes -/

theorem denotes_length {text : String} {e : Expr} (h : Denotes text e) (b : Bound)
    (limit : Option Nat) :
    Denotes (text ++ callWith (Call.bound b).name (intText ∘ Int.ofNat) limit)
      (e.withBound b (limit.map fun n => .int (.ofNat n))) := by
  have hb := denotes_bound h b (limit.map fun n => .int (.ofNat n))
  cases limit <;> exact hb

theorem denotes_stringRules (r : StringRules) : Denotes r.emit r.expr := by
  have hplain : Denotes "z.string()" (.plain .string) :=
    denotes_plain .string (by simp [Start.name])
  unfold StringRules.emit
  rw [StringRules.expr]
  split
  · exact denotes_enum r.enumValues
  · split
    · next h =>
        rw [if_pos h]
        exact denotes_mark "z.string()" ".datetime()" hplain .datetime (by simp [Call.name])
    · next h =>
        rw [if_neg (by simp [h]), if_pos h]
        exact denotes_mark "z.string()" ".email()" hplain .email (by simp [Call.name])
    · next hdatetime hemail =>
        rw [if_neg hdatetime, if_neg hemail]
        exact denotes_length (denotes_length hplain .min r.minLength) .max r.maxLength

theorem denotes_numberRules (r : NumberRules) : Denotes r.emit r.expr := by
  have hplain : Denotes "z.number()" (.plain .number) :=
    denotes_plain .number (by simp [Start.name])
  exact denotes_bound (denotes_bound hplain .min r.minimum) .max r.maximum

theorem isIdentifier_schemaIdent (name : String) : isIdentifier (schemaIdent name) = true := by
  have hsanitized := isNameList_sanitizeList name.toList
  have htext : (schemaIdent name).toList = sanitizeList name.toList ++ "Schema".toList := by
    unfold schemaIdent
    rw [String.toList_append, sanitize, String.toList_ofList]
  rw [isIdentifier, htext]
  cases hcs : sanitizeList name.toList with
  | nil =>
      rw [hcs] at hsanitized
      cases hsanitized
  | cons c cs =>
      rw [hcs, isNameList, Bool.and_eq_true] at hsanitized
      rw [List.cons_append, isNameList, hsanitized.1, List.all_append, hsanitized.2]
      decide

theorem denotes_ref (known : List String) (depth : Nat) (target : String) :
    Denotes (emitRef known target) (Kind.exprAt known depth (.ref target)) := by
  unfold emitRef Kind.exprAt
  dsimp only
  split
  · exact denotes_lazy (isIdentifier_schemaIdent _)
  · exact denotes_unknown

/-- A node's marks around what its kind is. -/
theorem denotes_marks {text : String} {e : Expr} (h : Denotes text e) (nullable : Bool)
    (description : Option String) (required : Bool) :
    Denotes (text ++ (if nullable then ".nullable()" else "")
        ++ callWith "describe" literal description ++ (if required then "" else ".optional()"))
      (((e.withMark .nullable nullable).withDescription description).withMark .optional
        !required) := by
  have hnullable := denotes_withMark _ ".nullable()" h .nullable (by simp [Call.name]) nullable
  have hdescribed := denotes_describe hnullable description
  have hoptional :=
    denotes_withMark _ ".optional()" hdescribed .optional (by simp [Call.name]) !required
  cases required <;> exact hoptional

mutual

theorem denotes_node (known : List String) (depth : Nat) (required : Bool) :
    ∀ n : Node, Denotes (n.emitAt known depth required) (n.exprAt known depth required)
  | ⟨kind, nullable, description⟩ => by
      unfold Node.emitAt Node.exprAt
      refine denotes_marks ?_ nullable description required
      split
      · exact denotes_unknown
      · exact denotes_kind known depth kind

theorem denotes_kind (known : List String) (depth : Nat) :
    ∀ k : Kind, Denotes (k.emitAt known depth) (k.exprAt known depth)
  | .ref target => by
      unfold Kind.emitAt
      exact denotes_ref known depth target
  | .allOf members => by
      unfold Kind.emitAt Kind.exprAt
      exact denotes_combine denotes_intersection (denotes_members known (depth + 1) members)
  | .oneOf members => by
      unfold Kind.emitAt Kind.exprAt
      exact denotes_combine denotes_or (denotes_members known (depth + 1) members)
  | .nullable inner => by
      unfold Kind.emitAt Kind.exprAt
      exact denotes_mark _ _ (denotes_node known (depth + 1) true inner) .nullable
        (by simp [Call.name])
  | .string rules => by
      unfold Kind.emitAt Kind.exprAt
      exact denotes_stringRules rules
  | .number rules => by
      unfold Kind.emitAt Kind.exprAt
      exact denotes_numberRules rules
  | .boolean => by
      unfold Kind.emitAt Kind.exprAt
      exact denotes_plain .boolean (by simp [Start.name])
  | .null => by
      unfold Kind.emitAt Kind.exprAt
      exact denotes_plain .null (by simp [Start.name])
  | .array none => by
      unfold Kind.emitAt Kind.exprAt
      exact denotes_array denotes_unknown
  | .array (some items) => by
      unfold Kind.emitAt Kind.exprAt
      exact denotes_array (denotes_node known (depth + 1) true items)
  | .object properties required => by
      unfold Kind.emitAt Kind.exprAt
      refine denotes_object (spells_properties known (depth + 1) required properties) fun h => ?_
      cases properties with
      | nil => unfold fieldExprs; rfl
      | cons p ps => unfold emitProperties at h; cases h
  | .any => by
      unfold Kind.emitAt Kind.exprAt
      exact denotes_unknown

theorem denotes_members (known : List String) (depth : Nat) :
    ∀ ns : List Node, List.Forall₂ Denotes (emitMembers known depth ns) (memberExprs known depth ns)
  | [] => .nil
  | n :: ns => .cons (denotes_node known depth true n) (denotes_members known depth ns)

theorem spells_properties (known : List String) (depth : Nat) (required : List String) :
    ∀ ps : List (String × Node),
      SpellsSteps 1 (emitProperties known depth required ps)
        (fieldTokens (fieldExprs known depth required ps))
  | [] => .nil 1
  | (name, n) :: ps => by
      have hnode := denotes_node known depth (required.contains name) n
      have h := SpellsSteps.line (spells_field name hnode)
        (spells_properties known depth required ps)
      unfold emitProperties fieldExprs fieldTokens
      simpa using h

end

/-- **The emitted text means the node.**  Every validator that is emitted is a text of the grammar,
to its last character, and the tree that it is parsed into is the expression of the node. -/
theorem parse_emit (known : List String) (required : Bool) (n : Node) :
    parse (n.emit known required) = some (n.exprAt known 0 required) :=
  (denotes_node known 0 required n).parse

end Validator

end EndpointBindings
