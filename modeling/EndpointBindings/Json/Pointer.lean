import EndpointBindings.Json.Basic
import EndpointBindings.Text.Split

/-!
# Pointers into a document

A local reference is `#/` and segments between slashes.  In a segment `~1` stands for a slash and
`~0` for a tilde.  A segment names a key of an object, or the place of an item of a list: digits,
with or without a plus sign and leading zeros, whose value 64 bits hold.

`walk?` follows segments from a tree to one of its parts.
-/

namespace EndpointBindings.Json

/-- The text of a segment. -/
def unescape : List Char → List Char
  | '~' :: '1' :: cs => '/' :: unescape cs
  | '~' :: '0' :: cs => '~' :: unescape cs
  | c :: cs => c :: unescape cs
  | [] => []

/-- A segment for a text. -/
def escape : List Char → List Char
  | [] => []
  | c :: cs =>
    if c = '~' then '~' :: '0' :: escape cs
    else if c = '/' then '~' :: '1' :: escape cs
    else c :: escape cs

/-- The digits after an optional plus sign. -/
def withoutPlus : List Char → List Char
  | '+' :: ds => ds
  | ds => ds

/-- The place in a list that a segment names. -/
def index? (segment : String) : Option Nat :=
  let ds := withoutPlus segment.toList
  let n := ds.foldl (fun n d => 10 * n + (d.toNat - '0'.toNat)) 0
  if !ds.isEmpty && ds.all Char.isDigit && n < Nat.pow 2 64 then some n else none

/-- One step into a tree. -/
def child? (v : Json) (segment : String) : Option Json :=
  match v with
  | .object ms => Ordered.get? ms segment
  | .list xs => (index? segment).bind fun n => xs[n]?
  | _ => none

/-- The part of a tree that segments lead to. -/
def walk? : Json → List String → Option Json
  | v, [] => some v
  | v, s :: ss => (v.child? s).bind (walk? · ss)

/-- The segments of a local reference. -/
def segments? (reference : String) : Option (List String) :=
  (Text.dropPrefix? "#/" reference).map fun rest =>
    (Text.split '/' rest).map fun s => String.ofList (unescape s.toList)

/-- The part of a tree that a local reference leads to; none for any other reference. -/
def follow? (root : Json) (reference : String) : Option Json :=
  (segments? reference).bind root.walk?

/-! ## Segments and texts -/

/-- A text is read back from its segment. -/
theorem unescape_escape (cs : List Char) : unescape (escape cs) = cs := by
  induction cs with
  | nil => rfl
  | cons c cs ih =>
    by_cases ht : c = '~'
    · subst ht; simp [escape, unescape, ih]
    · by_cases hs : c = '/'
      · subst hs; simp [escape, unescape, ih]
      · simp [escape, ht, hs, unescape, ih]

end EndpointBindings.Json
