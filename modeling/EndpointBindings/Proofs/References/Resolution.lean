import EndpointBindings.Proofs.Json.Pointers
import EndpointBindings.Proofs.Validator.Numeral
import EndpointBindings.Schema.Composition
import Mathlib.Data.List.Forall2

/-!
# Where a pointer leads

An access path goes down a tree by keys of objects and by places of lists (`Json.Leads`).  Written
as a pointer it leads to the same part, whatever characters its keys have (`pointer_resolution`),
for the pointer is cut and decoded into the texts of the path's steps again.

| what is undone | by |
| :-- | :-- |
| slashes between segments | `path_pointerTo` |
| the escapes in a segment | `unescape_escape`; `unescape_eq` says it by two replacements |
| the digits of a place | `index?_toDigits` |

A pointer does not say of a segment whether it is a key or a place.  The tree decides: an object
takes the segment as a key, and a list takes it as a place when it can be read as one.  So what a
pointer resolves to is where *some* path with these segments leads (`walk?_eq_some_iff`), and that
may be another path than the one that was written (`key_read_as_place`).
-/

namespace EndpointBindings

namespace Json

/-! ## Access paths -/

/-- A step down a tree: to the member at a key, or to the item at a place. -/
inductive PathStep where
  | key (name : String)
  | index (place : Nat)
deriving DecidableEq, Repr

/-- The text of a step: a key is its own text, and a place is written in decimal digits. -/
def PathStep.text : PathStep → String
  | .key name => name
  | .index place => String.ofList (Nat.toDigits 10 place)

/-- A path leads from a tree to one of its parts.  A key leads into an object and a place into a
list; the places of a list are those that 64 bits hold. -/
inductive Leads : Json → List PathStep → Json → Prop
  | here (v : Json) : Leads v [] v
  | member {ms : List (String × Json)} {name : String} {v w : Json} {path : List PathStep}
      (hv : Ordered.get? ms name = some v) (h : Leads v path w) :
      Leads (.object ms) (.key name :: path) w
  | item {xs : List Json} {place : Nat} {v w : Json} {path : List PathStep}
      (hplace : place < Nat.pow 2 64) (hv : xs[place]? = some v) (h : Leads v path w) :
      Leads (.list xs) (.index place :: path) w

/-- What a decoded segment can be read as: the key that it is, or the place whose digits it is. -/
inductive ReadsAs (segment : String) : PathStep → Prop
  | key : ReadsAs segment (.key segment)
  | index {place : Nat} (h : index? segment = some place) : ReadsAs segment (.index place)

/-- The pointer of an access path. -/
def pointer (path : List PathStep) : String := "#/" ++ pointerTo (path.map PathStep.text)

/-! ## The digits of a place -/

/-- A segment names a place when digits follow its plus sign, if it has one, and 64 bits hold their
value. -/
theorem index?_eq_some_iff {segment : String} {place : Nat} :
    index? segment = some place ↔
      Validator.DigitsOf (withoutPlus segment.toList) place ∧ place < Nat.pow 2 64 := by
  have hvalue : ∀ ds : List Char, ds.foldl (fun n d => 10 * n + (d.toNat - '0'.toNat)) 0 =
      Validator.digitsValue ds := fun _ => rfl
  rw [index?, hvalue, Option.ite_none_right_eq_some, Option.some.injEq]
  simp only [Bool.and_eq_true, Bool.not_eq_true', List.isEmpty_eq_false_iff, List.all_eq_true,
    decide_eq_true_eq]
  constructor
  · rintro ⟨⟨⟨hne, hdigit⟩, hlt⟩, rfl⟩
    exact ⟨⟨hdigit, hne, rfl⟩, hlt⟩
  · rintro ⟨hdigits, hlt⟩
    exact ⟨⟨⟨hdigits.ne_nil, hdigits.digit⟩, hdigits.value ▸ hlt⟩, hdigits.value⟩

/-- A place is read back from its digits. -/
theorem index?_toDigits {place : Nat} (h : place < Nat.pow 2 64) :
    index? (PathStep.index place).text = some place := by
  have hdigits := Validator.digitsOf_toDigits place
  have hplus : withoutPlus (Nat.toDigits 10 place) = Nat.toDigits 10 place := by
    cases hds : Nat.toDigits 10 place with
    | nil => rfl
    | cons d ds =>
        have hd : d.isDigit = true := hdigits.digit d (hds ▸ List.mem_cons_self)
        have hne : d ≠ '+' := by
          rintro rfl
          exact absurd hd (by decide)
        rw [withoutPlus.eq_2]
        rintro ds' ⟨⟩
        exact hne rfl
  rw [index?_eq_some_iff, PathStep.text, String.toList_ofList, hplus]
  exact ⟨hdigits, h⟩

/-- The texts of a path that leads somewhere can be read as its steps. -/
theorem Leads.readsAs_text {v w : Json} {path : List PathStep} (h : v.Leads path w) :
    List.Forall₂ ReadsAs (path.map PathStep.text) path := by
  induction h with
  | here => exact .nil
  | member _ _ ih => exact .cons .key ih
  | item hplace _ _ ih => exact .cons (.index (index?_toDigits hplace)) ih

/-! ## Walks -/

/-- A walk goes every path that its segments can be read as and that the tree has. -/
theorem Leads.walk? {v w : Json} {path : List PathStep} (h : v.Leads path w)
    {segments : List String} (hreads : List.Forall₂ ReadsAs segments path) :
    v.walk? segments = some w := by
  induction h generalizing segments with
  | here v =>
      cases hreads
      rfl
  | member hv _ ih =>
      cases hreads with
      | cons hstep hrest =>
          cases hstep
          rw [Json.walk?, child?, hv, Option.bind_some, ih hrest]
  | item _ hv _ ih =>
      cases hreads with
      | cons hstep hrest =>
          cases hstep with
          | index hplace => rw [Json.walk?, child?, hplace, Option.bind_some, hv,
              Option.bind_some, ih hrest]

/-- One step of a walk is a step of a path. -/
theorem exists_step_of_child? {v u : Json} {segment : String} (h : v.child? segment = some u) :
    ∃ step, ReadsAs segment step ∧
      ∀ {path : List PathStep} {w : Json}, u.Leads path w → v.Leads (step :: path) w := by
  cases v with
  | object ms => exact ⟨.key segment, .key, .member h⟩
  | list xs =>
      obtain ⟨place, hplace, hu⟩ := Option.bind_eq_some_iff.1 h
      exact ⟨.index place, .index hplace, .item (index?_eq_some_iff.1 hplace).2 hu⟩
  | null | bool _ | number _ | string _ => cases h

/-- **A walk leads where a path leads that its segments can be read as**, by induction on the
segments. -/
theorem walk?_eq_some_iff {v w : Json} {segments : List String} :
    v.walk? segments = some w ↔ ∃ path, List.Forall₂ ReadsAs segments path ∧ v.Leads path w := by
  constructor
  · intro h
    induction segments generalizing v with
    | nil =>
        cases h
        exact ⟨[], .nil, .here _⟩
    | cons segment segments ih =>
        obtain ⟨u, hu, hw⟩ := Option.bind_eq_some_iff.1 h
        obtain ⟨step, hstep, hdown⟩ := exists_step_of_child? hu
        obtain ⟨path, hpath, hleads⟩ := ih hw
        exact ⟨step :: path, .cons hstep hpath, hdown hleads⟩
  · rintro ⟨path, hreads, hleads⟩
    exact hleads.walk? hreads

/-! ## The text of a pointer -/

/-- Put one character for each occurrence of two, from left to right. -/
def replacePair (first second new : Char) : List Char → List Char
  | c :: d :: cs =>
    if c = first ∧ d = second then new :: replacePair first second new cs
    else c :: replacePair first second new (d :: cs)
  | [c] => [c]
  | [] => []

/-- The text of a segment, by two replacements: first of the escaped slashes, then of the escaped
tildes. -/
def decodeSegment (segment : String) : String :=
  String.ofList (replacePair '~' '0' '~' (replacePair '~' '1' '/' segment.toList))

/-- A character that opens no occurrence stays. -/
theorem replacePair_cons {first second new c : Char} {cs : List Char}
    (h : c = first → cs.head? ≠ some second) :
    replacePair first second new (c :: cs) = c :: replacePair first second new cs := by
  cases cs with
  | nil => rfl
  | cons d cs =>
      rw [replacePair, if_neg]
      rintro ⟨hc, rfl⟩
      exact h hc rfl

/-- A character that a replacement does not make stands in front only when it stood there before. -/
theorem head?_replacePair {first second new c : Char} {cs : List Char} (hnew : c ≠ new)
    (h : (replacePair first second new cs).head? = some c) : cs.head? = some c := by
  match cs with
  | [] | [_] => exact h
  | d :: e :: cs =>
      rw [replacePair] at h
      split at h
      · exact absurd (Option.some.inj h).symm hnew
      · exact h

/-- Decoding from left to right is replacing twice: no escape comes out of a replacement. -/
theorem unescape_eq (cs : List Char) :
    unescape cs = replacePair '~' '0' '~' (replacePair '~' '1' '/' cs) := by
  induction cs using unescape.induct with
  | case1 cs ih =>
      rw [unescape, replacePair, if_pos ⟨rfl, rfl⟩,
        replacePair_cons (fun h => absurd h (by decide)), ih]
  | case2 cs ih =>
      have hinner : replacePair '~' '1' '/' ('~' :: '0' :: cs) =
          '~' :: '0' :: replacePair '~' '1' '/' cs := by
        rw [replacePair_cons (fun _ => by simp), replacePair_cons (fun h => absurd h (by decide))]
      rw [unescape, hinner, replacePair, if_pos ⟨rfl, rfl⟩, ih]
  | case3 c cs hone hzero ih =>
      have hone' : c = '~' → cs.head? ≠ some '1' := by
        rintro rfl hhead
        obtain ⟨cs', rfl⟩ := List.head?_eq_some_iff.1 hhead
        exact hone cs' rfl rfl
      have hzero' : c = '~' → (replacePair '~' '1' '/' cs).head? ≠ some '0' := by
        rintro rfl hhead
        obtain ⟨cs', rfl⟩ := List.head?_eq_some_iff.1 (head?_replacePair (by decide) hhead)
        exact hzero cs' rfl rfl
      rw [unescape.eq_3 c cs hone hzero, replacePair_cons hone', replacePair_cons hzero', ih]
  | case4 => rfl

theorem path_eq_decodeSegment (rest : String) :
    path rest = (Text.split '/' rest).map decodeSegment :=
  List.map_congr_left fun s _ => by rw [unescape_eq, decodeSegment]

/-- The segments of a reference that starts as a local one. -/
theorem segments?_eq_some_path_iff {reference : String} {segments : List String} :
    segments? reference = some segments ↔
      ∃ rest, reference = "#/" ++ rest ∧ path rest = segments := by
  rw [segments?_eq_some_iff]
  constructor
  · rintro ⟨cs, hlist, rfl⟩
    refine ⟨String.ofList cs, ?_, ?_⟩
    · rw [← String.toList_inj, hlist, String.toList_append, String.toList_ofList (l := cs)]
    · rw [path_eq, String.toList_ofList]
  · rintro ⟨rest, rfl, rfl⟩
    exact ⟨rest.toList, String.toList_append, (path_eq rest).symm⟩

/-- A pointer goes through the texts of the path that it was made of. -/
theorem segments?_pointer {path : List PathStep} (hne : path ≠ []) :
    segments? (pointer path) = some (path.map PathStep.text) :=
  segments?_eq_some_path_iff.2 ⟨_, rfl, path_pointerTo (by simpa using hne)⟩

end Json

open Json (PathStep ReadsAs)

/-! ## What a reference resolves to -/

theorem Schema.resolve?_eq_some_iff {root : Json} {reference : String} {s : Schema} :
    Schema.resolve? root reference = some s ↔
      ∃ rest path v, reference = "#/" ++ rest ∧ List.Forall₂ ReadsAs (Json.path rest) path ∧
        root.Leads path v ∧ s = Schema.ofJson v := by
  rw [Schema.resolve?, Json.follow?, Option.map_bind, Option.bind_eq_some_iff]
  constructor
  · rintro ⟨segments, hsegments, h⟩
    obtain ⟨v, hv, rfl⟩ := Option.map_eq_some_iff.1 h
    obtain ⟨rest, hrest, rfl⟩ := Json.segments?_eq_some_path_iff.1 hsegments
    obtain ⟨path, hreads, hleads⟩ := Json.walk?_eq_some_iff.1 hv
    exact ⟨rest, path, v, hrest, hreads, hleads, rfl⟩
  · rintro ⟨rest, path, v, hrest, hreads, hleads, rfl⟩
    refine ⟨_, Json.segments?_eq_some_path_iff.2 ⟨rest, hrest, rfl⟩, ?_⟩
    rw [Function.comp_apply, hleads.walk? hreads, Option.map_some]

theorem Schema.resolve?_pointer {root : Json} {path : List PathStep} (hne : path ≠ []) :
    Schema.resolve? root (Json.pointer path) =
      (root.walk? (path.map PathStep.text)).map Schema.ofJson := by
  rw [Schema.resolve?, Json.follow?, Json.segments?_pointer hne, Option.bind_some]

/-- **Where pointers lead.**  The pointer of a path that leads somewhere resolves to the schema that
stands there.  It resolves to nothing exactly when no path leads anywhere that its steps' texts can
be read as.  And whatever a reference resolves to stands where a path leads that the reference's
segments are read as, decoded by replacing `~1` and then `~0`. -/
theorem pointer_resolution (root : Json) :
    (∀ path : List PathStep, path ≠ [] → ∀ v, root.Leads path v →
      Schema.resolve? root (Json.pointer path) = some (Schema.ofJson v)) ∧
    (∀ path : List PathStep, path ≠ [] →
      (Schema.resolve? root (Json.pointer path) = none ↔
        ∀ other, List.Forall₂ ReadsAs (path.map PathStep.text) other →
          ∀ v, ¬ root.Leads other v)) ∧
    ∀ (reference : String) (s : Schema), Schema.resolve? root reference = some s →
      ∃ rest path v, reference = "#/" ++ rest ∧
        List.Forall₂ ReadsAs ((Text.split '/' rest).map Json.decodeSegment) path ∧
        root.Leads path v ∧ s = Schema.ofJson v := by
  refine ⟨?_, ?_, ?_⟩
  · intro path hne v hleads
    rw [Schema.resolve?_pointer hne, hleads.walk? hleads.readsAs_text, Option.map_some]
  · intro path hne
    rw [Schema.resolve?_pointer hne, Option.map_eq_none_iff, Option.eq_none_iff_forall_ne_some]
    constructor
    · intro h other hreads v hleads
      exact h v (hleads.walk? hreads)
    · intro h v hv
      obtain ⟨other, hreads, hleads⟩ := Json.walk?_eq_some_iff.1 hv
      exact h other hreads v hleads
  · intro reference s h
    obtain ⟨rest, path, v, hrest, hreads, hleads, hs⟩ := Schema.resolve?_eq_some_iff.1 h
    exact ⟨rest, path, v, hrest, Json.path_eq_decodeSegment rest ▸ hreads, hleads, hs⟩

/-! ### A tree with tildes and a list -/

/-- A list under a key that looks like an escaped tilde. -/
def tildeTree : Json :=
  .object [("~01", .list [.null, .object [("a/b", .object [("type", .string "string")])]])]

/-- The pointer to a member of the list's second item leads there, and the one to a third item
leads nowhere. -/
theorem tildeTree_resolution :
    Json.pointer [.key "~01", .index 1, .key "a/b"] = "#/~001/1/a~1b" ∧
    tildeTree.Leads [.key "~01", .index 1, .key "a/b"] (.object [("type", .string "string")]) ∧
    Schema.resolve? tildeTree "#/~001/1/a~1b" =
      some { facets := { types := some (.single "string") } } ∧
    Schema.resolve? tildeTree "#/~001/2" = none ∧
    ∃ rest path v, "#/~001/1/a~1b" = "#/" ++ rest ∧
      List.Forall₂ ReadsAs ((Text.split '/' rest).map Json.decodeSegment) path ∧
      tildeTree.Leads path v ∧
      { facets := { types := some (.single "string") } } = Schema.ofJson v := by
  obtain ⟨hleads, hnone, hback⟩ := pointer_resolution tildeTree
  have hpointer : Json.pointer [.key "~01", .index 1, .key "a/b"] = "#/~001/1/a~1b" := by decide
  have hmissing : Json.pointer [.key "~01", .index 2] = "#/~001/2" := by decide
  have hpath : tildeTree.Leads [.key "~01", .index 1, .key "a/b"]
      (.object [("type", .string "string")]) :=
    .member rfl (.item (by decide) rfl (.member rfl (.here _)))
  have hresolved : Schema.resolve? tildeTree "#/~001/1/a~1b" =
      some { facets := { types := some (.single "string") } } :=
    hpointer ▸ hleads _ (by decide) _ hpath
  refine ⟨hpointer, hpath, hresolved, ?_, hback _ _ hresolved⟩
  rw [← hmissing, hnone _ (by decide)]
  rintro other hreads v h
  have hwalk : tildeTree.walk? ["~01", "2"] = none := rfl
  exact nomatch hwalk.symm.trans (h.walk? hreads)

/-- A key of a path that leads nowhere, since a list has no keys, is read as a place of the list. -/
theorem key_read_as_place :
    Json.pointer [.key "a", .key "+0"] = "#/a/+0" ∧
    (∀ v, ¬ (Json.object [("a", .list [.object [("type", .string "string")]])]).Leads
      [.key "a", .key "+0"] v) ∧
    Schema.resolve? (.object [("a", .list [.object [("type", .string "string")]])])
      (Json.pointer [.key "a", .key "+0"]) =
        some { facets := { types := some (.single "string") } } := by
  refine ⟨by decide, ?_, ?_⟩
  · rintro v (_ | @⟨_, _, _, _, _, ha, h⟩)
    cases ha
    cases h
  · rw [Schema.resolve?_pointer (by decide)]
    rfl

end EndpointBindings
