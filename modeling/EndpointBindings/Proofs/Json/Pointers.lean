import EndpointBindings.Json.Pointer

/-!
# The text of a pointer

A pointer is written as its segments with slashes between them, and each segment is escaped so that
no slash is left in it.  So the segments are found again by cutting at the slashes
(`pieces_intercalate`), and each is read back from its escaped form: every list of keys is the path
of a pointer (`path_pointerTo`).
-/

namespace EndpointBindings

/-! ## Segments -/

theorem not_mem_escape (cs : List Char) : '/' ∉ Json.escape cs := by
  induction cs with
  | nil => exact List.not_mem_nil
  | cons c cs ih =>
      rw [Json.escape]
      split
      · simpa using ih
      · split
        · simpa using ih
        · next h => simpa [Ne.symm h] using ih

/-- A segment whose text needs no decoding is its own text. -/
theorem unescape_of_not_mem : ∀ {cs : List Char}, '~' ∉ Json.unescape cs → '/' ∉ Json.unescape cs →
    Json.unescape cs = cs := by
  intro cs
  induction cs using Json.unescape.induct with
  | case1 cs _ =>
      intro _ hslash
      rw [Json.unescape] at hslash
      exact absurd List.mem_cons_self hslash
  | case2 cs _ =>
      intro htilde _
      rw [Json.unescape] at htilde
      exact absurd List.mem_cons_self htilde
  | case3 c cs hone hzero ih =>
      intro htilde hslash
      rw [Json.unescape.eq_3 c cs hone hzero] at htilde hslash ⊢
      have hcs := ih (fun h => htilde (List.mem_cons_of_mem c h))
        fun h => hslash (List.mem_cons_of_mem c h)
      rw [hcs]
  | case4 => exact fun _ _ => rfl

theorem eq_of_unescape {cs : List Char} {text : String}
    (h : String.ofList (Json.unescape cs) = text) (htilde : '~' ∉ text.toList)
    (hslash : '/' ∉ text.toList) : cs = text.toList := by
  rw [← h, String.toList_ofList] at htilde hslash ⊢
  exact (unescape_of_not_mem htilde hslash).symm

/-! ## Whole pointers -/

/-- The keys that a pointer goes through. -/
def Json.path (pointer : String) : List String :=
  (Text.split '/' pointer).map fun s => String.ofList (Json.unescape s.toList)

/-- The pointer that goes through some keys. -/
def Json.pointerTo (path : List String) : String :=
  String.ofList (['/'].intercalate (path.map fun key => Json.escape key.toList))

theorem pieces_intercalate {sep : Char} : ∀ {ws : List (List Char)}, ws ≠ [] →
    (∀ w ∈ ws, sep ∉ w) → Text.pieces sep ([sep].intercalate ws) = ws
  | [], hne, _ => absurd rfl hne
  | [w], _, h => by
      rw [List.intercalate_singleton]
      exact Text.pieces_of_not_mem (h w List.mem_cons_self)
  | w :: w' :: ws, _, h => by
      have hrest := pieces_intercalate (List.cons_ne_nil w' ws) fun u hu =>
        h u (List.mem_cons_of_mem w hu)
      rw [List.intercalate_cons_cons, List.append_assoc, List.singleton_append,
        Text.pieces_append_cons (h w List.mem_cons_self), hrest]

/-- Every list of keys is gone through by a pointer. -/
theorem path_pointerTo {path : List String} (h : path ≠ []) :
    Json.path (Json.pointerTo path) = path := by
  rw [Json.path, Json.pointerTo, Text.split, String.toList_ofList, pieces_intercalate,
    List.map_map, List.map_map]
  · refine (List.map_congr_left fun key _ => ?_).trans (List.map_id' path)
    simp [Json.unescape_escape]
  · simpa using h
  · intro w hw
    obtain ⟨key, -, rfl⟩ := List.mem_map.1 hw
    exact not_mem_escape _

theorem path_eq (pointer : String) : Json.path pointer =
    (Text.pieces '/' pointer.toList).map fun p => String.ofList (Json.unescape p) := by
  rw [Json.path, Text.split, List.map_map]
  exact List.map_congr_left fun p _ => by rw [Function.comp_apply, String.toList_ofList]

theorem segments?_eq_some_iff {reference : String} {segments : List String} :
    Json.segments? reference = some segments ↔
      ∃ cs, reference.toList = "#/".toList ++ cs ∧
        (Text.pieces '/' cs).map (fun p => String.ofList (Json.unescape p)) = segments := by
  have hmap : ∀ cs, (Text.split '/' (String.ofList cs)).map (fun s =>
      String.ofList (Json.unescape s.toList)) =
        (Text.pieces '/' cs).map fun p => String.ofList (Json.unescape p) := by
    intro cs
    rw [Text.split, String.toList_ofList, List.map_map]
    exact List.map_congr_left fun p _ => by rw [Function.comp_apply, String.toList_ofList]
  rw [Json.segments?, Text.dropPrefix?, Option.map_map, Option.map_eq_some_iff]
  simp only [Function.comp_apply, hmap, Text.afterPrefix?_eq_some_iff]

end EndpointBindings
