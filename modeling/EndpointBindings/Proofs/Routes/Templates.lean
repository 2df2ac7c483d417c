import EndpointBindings.Route.Extract
import EndpointBindings.Route.Table

/-!
# Names from path templates

A path template is text with parameters in braces.  The route's path has the parameters in brackets
(`toList_normalizePath`), and the path is read twice for the name of an endpoint: once for what
stands outside brackets, by a count of the open ones, and once for what stands inside, by cutting at
every opening bracket and again at the first closing one.

| reading | of a template it gives |
| :-- | :-- |
| `outsideBrackets 0` | the text between the parameters (`outsideBrackets_written`) |
| `templateParams` | the parameters in their order (`templateParams_normalizePath`) |

So the two readings part every template in the same way, whatever its texts are: parameters may be
empty, stand next to each other or hold slashes.  Only braces and brackets must not stand in the
texts themselves, and a `PlainText` holds none.
-/

namespace EndpointBindings

/-- The characters that are put around parameters. -/
def isMark (c : Char) : Bool := c = '{' || c = '}' || c = '[' || c = ']'

/-- Text without braces and brackets. -/
structure PlainText where
  text : String
  plain : text.toList.all (fun c => !isMark c) = true := by decide

namespace PlainText

/-- The characters of the text. -/
def chars (w : PlainText) : List Char := w.text.toList

theorem not_mem (w : PlainText) {c : Char} (hc : isMark c = true) : c ∉ w.chars := by
  intro h
  have hplain := List.all_eq_true.1 w.plain c h
  rw [hc] at hplain
  cases hplain

variable (w : PlainText)

theorem openingBrace_not_mem : '{' ∉ w.chars := w.not_mem rfl

theorem closingBrace_not_mem : '}' ∉ w.chars := w.not_mem rfl

theorem openingBracket_not_mem : '[' ∉ w.chars := w.not_mem rfl

theorem closingBracket_not_mem : ']' ∉ w.chars := w.not_mem rfl

end PlainText

/-- A path template: text, and behind it parameters, each followed by text. -/
structure PathTemplate where
  front : PlainText
  places : List (PlainText × PlainText)

namespace PathTemplate

/-- Parameters between two marks, with the text behind them. -/
def placesBetween (opening closing : Char) (places : List (PlainText × PlainText)) : List Char :=
  places.flatMap fun p => opening :: (p.1.chars ++ closing :: p.2.chars)

/-- The template with its parameters between two marks. -/
def written (t : PathTemplate) (opening closing : Char) : List Char :=
  t.front.chars ++ placesBetween opening closing t.places

/-- The template as a document has it. -/
def text (t : PathTemplate) : String := String.ofList (t.written '{' '}')

/-- The text outside the parameters. -/
def literals (t : PathTemplate) : List Char :=
  t.front.chars ++ t.places.flatMap fun p => p.2.chars

/-- The names of the parameters. -/
def params (t : PathTemplate) : List String := t.places.map fun p => p.1.text

/-- What the name of an endpoint says of the template: its text without slashes, and behind it the
parameters, each after an underscore. -/
def summary (t : PathTemplate) : String :=
  String.ofList (t.literals.filter (· ≠ '/') ++ t.params.flatMap fun name => '_' :: name.toList)

theorem placesBetween_cons (opening closing : Char) (p : PlainText × PlainText)
    (places : List (PlainText × PlainText)) :
    placesBetween opening closing (p :: places) = opening :: (p.1.chars ++
      closing :: (p.2.chars ++ placesBetween opening closing places)) := by
  rw [placesBetween, List.flatMap_cons, List.cons_append, List.append_assoc, List.cons_append]
  rfl

end PathTemplate

open PathTemplate (placesBetween placesBetween_cons)

/-! ## The path of the route -/

/-- A character of a path: a brace becomes a bracket. -/
def bracketed (c : Char) : Char := if c = '{' then '[' else if c = '}' then ']' else c

theorem PlainText.map_bracketed (w : PlainText) : w.chars.map bracketed = w.chars := by
  have hkept : ∀ c ∈ w.chars, bracketed c = c := by
    intro c hc
    have hopen : c ≠ '{' := fun h => w.openingBrace_not_mem (h ▸ hc)
    have hclose : c ≠ '}' := fun h => w.closingBrace_not_mem (h ▸ hc)
    rw [bracketed, if_neg hopen, if_neg hclose]
  exact (List.map_congr_left hkept).trans (List.map_id' w.chars)

theorem map_bracketed_placesBetween (places : List (PlainText × PlainText)) :
    (placesBetween '{' '}' places).map bracketed = placesBetween '[' ']' places := by
  induction places with
  | nil => rfl
  | cons p places ih =>
      rw [placesBetween_cons, placesBetween_cons, List.map_cons, List.map_append, List.map_cons,
        List.map_append, p.1.map_bracketed, p.2.map_bracketed, ih]
      rfl

/-- The route's path is the template with brackets around its parameters. -/
theorem toList_normalizePath (t : PathTemplate) :
    (normalizePath t.text).toList = t.written '[' ']' := by
  have hpath : (normalizePath t.text).toList = (t.written '{' '}').map bracketed := by
    rw [normalizePath, PathTemplate.text, String.toList_ofList, String.toList_ofList]
    rfl
  rw [hpath, PathTemplate.written, List.map_append, t.front.map_bracketed,
    map_bracketed_placesBetween, PathTemplate.written]

/-! ## What stands outside brackets -/

/-- Text outside brackets is kept. -/
theorem outsideBrackets_append {w : List Char} (hopen : '[' ∉ w) (cs : List Char) :
    outsideBrackets 0 (w ++ cs) = w ++ outsideBrackets 0 cs := by
  induction w with
  | nil => rfl
  | cons c w ih =>
      obtain ⟨hc, hopen⟩ := not_or.1 (mt List.mem_cons.2 hopen)
      rw [List.cons_append, outsideBrackets, if_neg (Ne.symm hc), if_pos rfl, ih hopen]
      rfl

/-- Text inside one pair of brackets is passed over, with the bracket that closes it. -/
theorem outsideBrackets_inside {w : List Char} (hopen : '[' ∉ w) (hclose : ']' ∉ w)
    (cs : List Char) : outsideBrackets 1 (w ++ ']' :: cs) = outsideBrackets 0 cs := by
  induction w with
  | nil => rfl
  | cons c w ih =>
      obtain ⟨ho, hopen⟩ := not_or.1 (mt List.mem_cons.2 hopen)
      obtain ⟨hc, hclose⟩ := not_or.1 (mt List.mem_cons.2 hclose)
      rw [List.cons_append, outsideBrackets, if_neg (Ne.symm ho), if_neg Nat.one_ne_zero,
        if_neg (Ne.symm hc), ih hopen hclose]

theorem outsideBrackets_places (places : List (PlainText × PlainText)) :
    outsideBrackets 0 (placesBetween '[' ']' places) = places.flatMap fun p => p.2.chars := by
  induction places with
  | nil => rfl
  | cons p places ih =>
      rw [placesBetween_cons, outsideBrackets, if_pos rfl,
        outsideBrackets_inside p.1.openingBracket_not_mem p.1.closingBracket_not_mem,
        outsideBrackets_append p.2.openingBracket_not_mem, ih, List.flatMap_cons]

/-- **Outside brackets stands the text between the parameters.** -/
theorem outsideBrackets_written (t : PathTemplate) :
    outsideBrackets 0 (t.written '[' ']') = t.literals := by
  rw [PathTemplate.written, outsideBrackets_append t.front.openingBracket_not_mem,
    outsideBrackets_places, PathTemplate.literals]

/-! ## What stands inside brackets -/

/-- Cut at the opening brackets, a template has a piece for its front and one for each parameter,
up to the next one. -/
theorem pieces_places (places : List (PlainText × PlainText)) {w : List Char} (hw : '[' ∉ w) :
    Text.pieces '[' (w ++ placesBetween '[' ']' places) =
      w :: places.map fun p => p.1.chars ++ ']' :: p.2.chars := by
  induction places generalizing w with
  | nil => rw [placesBetween, List.flatMap_nil, List.append_nil, Text.pieces_of_not_mem hw]; rfl
  | cons p places ih =>
      have hpiece : '[' ∉ p.1.chars ++ ']' :: p.2.chars := by
        rw [List.mem_append, List.mem_cons, not_or, not_or]
        exact ⟨p.1.openingBracket_not_mem, by decide, p.2.openingBracket_not_mem⟩
      rw [placesBetween, List.flatMap_cons, List.cons_append, Text.pieces_append_cons hw]
      exact congrArg (w :: ·) (ih hpiece)

/-- The parameter is what stands before the first closing bracket of its piece. -/
theorem beforeBracket?_piece (p : PlainText × PlainText) :
    beforeBracket? (p.1.chars ++ ']' :: p.2.chars) = some p.1.chars := by
  have hpos : ∀ c ∈ p.1.chars, decide (c ≠ ']') = true := by
    intro c hc
    have hclose : c ≠ ']' := fun h => p.1.closingBracket_not_mem (h ▸ hc)
    exact decide_eq_true hclose
  rw [beforeBracket?, if_pos (by simp), List.takeWhile_append_of_pos hpos,
    List.takeWhile_cons_of_neg (by decide), List.append_nil]

/-- **Inside brackets stand the parameters, in their order.** -/
theorem templateParams_normalizePath (t : PathTemplate) :
    templateParams (normalizePath t.text) = t.params := by
  have hnames : ∀ places : List (PlainText × PlainText),
      (places.map fun p => p.1.chars ++ ']' :: p.2.chars).filterMap
          (fun piece => (beforeBracket? piece).map String.ofList) =
        places.map fun p => p.1.text := by
    intro places
    induction places with
    | nil => rfl
    | cons p places ih =>
        rw [List.map_cons, List.filterMap_cons, beforeBracket?_piece, Option.map_some]
        dsimp only
        rw [ih, PlainText.chars, String.ofList_toList, List.map_cons]
  rw [templateParams, toList_normalizePath, PathTemplate.written,
    pieces_places t.places t.front.openingBracket_not_mem, List.drop_one, List.tail_cons, hnames,
    PathTemplate.params]

/-! ## The name -/

/-- Names joined by underscores, with one in front unless there are no names. -/
theorem toList_joined (names : List String) :
    (if names.isEmpty then "" else "_" ++ Text.join "_" names).toList =
      names.flatMap fun name => '_' :: name.toList := by
  have hmore : ∀ (names : List String) (first : String),
      (names.foldl (fun text name => text ++ "_" ++ name) first).toList =
        first.toList ++ names.flatMap fun name => '_' :: name.toList := by
    intro names
    induction names with
    | nil =>
        intro first
        exact (List.append_nil _).symm
    | cons name names ih =>
        intro first
        rw [List.foldl_cons, ih, String.toList_append, String.toList_append, List.flatMap_cons,
          List.append_assoc, List.append_assoc]
        rfl
  cases names with
  | nil => rfl
  | cons name names =>
      show ("_" ++ names.foldl (fun text name => text ++ "_" ++ name) name).toList = _
      rw [String.toList_append, hmore, List.flatMap_cons]
      rfl

theorem nameOf_normalizePath (t : PathTemplate) (verb : Verb) :
    nameOf verb (normalizePath t.text) t.params =
      TypeScript.sanitize (verb.text ++ "_" ++ t.summary) := by
  have hsummary : (String.ofList ((outsideBrackets 0 (normalizePath t.text).toList).filter
      (· ≠ '/')) ++ if t.params.isEmpty then "" else "_" ++ Text.join "_" t.params) =
      t.summary := by
    refine String.toList_injective ?_
    rw [String.toList_append, toList_joined, toList_normalizePath, outsideBrackets_written,
      PathTemplate.summary, String.toList_ofList, String.toList_ofList]
  rw [nameOf, String.append_assoc, hsummary]

/-- **An endpoint of a path template is named by its verb, the text of the template without slashes
and the parameters.**  It makes no difference whether the parameters are declared, as long as they
are declared in the order in which they stand. -/
theorem name_of_template (t : PathTemplate) (e : Endpoint)
    (hparams : e.pathParamNames = [] ∨ e.pathParamNames = t.params) :
    e.name (normalizePath t.text) = TypeScript.sanitize (e.verb.text ++ "_" ++ t.summary) := by
  rw [← nameOf_normalizePath, Endpoint.name]
  rcases hparams with h | h
  · rw [h]
    exact congrArg _ (templateParams_normalizePath t)
  · rw [h]
    cases hp : t.params with
    | nil => exact congrArg _ ((templateParams_normalizePath t).trans hp)
    | cons name names => rfl

/-- Parameters next to each other, one with a slash in it and one without a name. -/
def teamTemplate : PathTemplate where
  front := { text := "/teams/" }
  places := [({ text := "org/team" }, { text := "" }), ({ text := "" }, { text := "/v1.0" })]

/-- It has the same name with its parameters declared and without. -/
theorem teamTemplate_name :
    ({ verb := .delete } : Endpoint).name (normalizePath teamTemplate.text) =
      "DELETE_teamsv1_0_org_team_" ∧
    ({ verb := .delete, pathParams := [⟨"org/team", .any, true⟩, ⟨"", .any, true⟩] } :
      Endpoint).name (normalizePath teamTemplate.text) = "DELETE_teamsv1_0_org_team_" := by
  have hname : TypeScript.sanitize (Verb.delete.text ++ "_" ++ teamTemplate.summary) =
      "DELETE_teamsv1_0_org_team_" := by decide
  exact ⟨(name_of_template teamTemplate _ (.inl rfl)).trans hname,
    (name_of_template teamTemplate _ (.inr rfl)).trans hname⟩

end EndpointBindings
