/-!
# Cutting text at a separator

A pointer is cut at its slashes, a block of source at its line ends.  `pieces` cuts a list of
characters at every occurrence of a separator; there is always one more piece than there are
separators, and joining the pieces with the separator gives the text back (`joined_pieces`), so
nothing is lost and nothing is invented.
-/

namespace EndpointBindings.Text

/-- The pieces between the occurrences of a separator. -/
def pieces (sep : Char) : List Char → List (List Char)
  | [] => [[]]
  | c :: cs =>
    if c = sep then [] :: pieces sep cs
    else
      match pieces sep cs with
      | [] => [[c]]
      | p :: ps => (c :: p) :: ps

/-- The pieces of a string. -/
def split (sep : Char) (s : String) : List String := (pieces sep s.toList).map String.ofList

/-- Put a separator between texts. -/
def join (sep : String) : List String → String
  | [] => ""
  | s :: ss => ss.foldl (fun text t => text ++ sep ++ t) s

/-- What follows a prefix, when a text starts with it. -/
def afterPrefix? : List Char → List Char → Option (List Char)
  | [], cs => some cs
  | _ :: _, [] => none
  | p :: ps, c :: cs => if p = c then afterPrefix? ps cs else none

/-- What follows a prefix of a string. -/
def dropPrefix? (pre s : String) : Option String :=
  (afterPrefix? pre.toList s.toList).map String.ofList

/-- Whether a string starts with another. -/
def startsWith (pre s : String) : Bool := (afterPrefix? pre.toList s.toList).isSome

/-- Lower-case letters for upper-case ones, over ASCII alone. -/
def lowerAscii (s : String) : String :=
  String.ofList (s.toList.map fun c => if 'A' ≤ c && c ≤ 'Z' then Char.ofNat (c.toNat + 32) else c)

/-! ## Laws -/

theorem pieces_ne_nil (sep : Char) (cs : List Char) : pieces sep cs ≠ [] := by
  induction cs with
  | nil => simp [pieces]
  | cons c cs ih =>
    simp only [pieces]
    split
    · simp
    · split <;> simp

/-- Joining the pieces with the separator gives the text back. -/
theorem joined_pieces (sep : Char) (cs : List Char) :
    [sep].intercalate (pieces sep cs) = cs := by
  induction cs with
  | nil => rfl
  | cons c cs ih =>
    simp only [pieces]
    match hp : pieces sep cs with
    | [] => exact absurd hp (pieces_ne_nil sep cs)
    | p :: ps =>
      rw [hp] at ih
      split
      · next h => subst h; simp [List.intercalate, List.intersperse] at ih ⊢; simpa using ih
      · cases ps with
        | nil => simp_all [List.intercalate]
        | cons q qs => simp_all [List.intercalate, List.intersperse]

/-- No piece holds the separator. -/
theorem not_mem_of_mem_pieces {sep : Char} {cs p : List Char} (h : p ∈ pieces sep cs) :
    sep ∉ p := by
  induction cs generalizing p with
  | nil => simp_all [pieces]
  | cons c cs ih =>
    simp only [pieces] at h
    split at h
    · rcases List.mem_cons.1 h with rfl | h
      · simp
      · exact ih h
    · next hc =>
      split at h
      · simp_all; exact fun h => hc h.symm
      · next q qs hq =>
        rcases List.mem_cons.1 h with rfl | h
        · intro hm
          rcases List.mem_cons.1 hm with h | h
          · exact hc h.symm
          · exact ih (by rw [hq]; simp) h
        · exact ih (by rw [hq]; simp [h])

/-- Text without the separator belongs to the first piece. -/
theorem pieces_append {sep : Char} {w : List Char} (hw : sep ∉ w) (cs : List Char) :
    ∃ p ps, pieces sep cs = p :: ps ∧ pieces sep (w ++ cs) = (w ++ p) :: ps := by
  induction w with
  | nil =>
    cases h : pieces sep cs with
    | nil => exact absurd h (pieces_ne_nil sep cs)
    | cons p ps => exact ⟨p, ps, rfl, h⟩
  | cons c w ih =>
    obtain ⟨p, ps, hcs, hwcs⟩ := ih fun h => hw (List.mem_cons_of_mem c h)
    have hc : c ≠ sep := fun h => hw (h ▸ List.mem_cons_self)
    refine ⟨p, ps, hcs, ?_⟩
    rw [List.cons_append, pieces, if_neg hc, hwcs]
    rfl

theorem pieces_of_not_mem {sep : Char} {w : List Char} (hw : sep ∉ w) : pieces sep w = [w] := by
  obtain ⟨p, ps, hnil, hw⟩ := pieces_append hw []
  cases hnil
  simpa using hw

theorem pieces_append_cons {sep : Char} {w : List Char} (hw : sep ∉ w) (cs : List Char) :
    pieces sep (w ++ sep :: cs) = w :: pieces sep cs := by
  obtain ⟨p, ps, hcs, hw⟩ := pieces_append hw (sep :: cs)
  rw [pieces, if_pos rfl] at hcs
  cases hcs
  rw [hw, List.append_nil]

/-- A text in one piece, put between two texts, joins the last piece of one and the first of the
other, and leaves their other pieces. -/
theorem pieces_around {sep : Char} {w : List Char} (hw : sep ∉ w) (ds : List Char) :
    ∀ cs : List Char, ∃ ps p q qs, pieces sep cs = ps ++ [p] ∧ pieces sep ds = q :: qs ∧
      pieces sep (cs ++ (w ++ ds)) = ps ++ (p ++ (w ++ q)) :: qs
  | [] => by
      obtain ⟨q, qs, hds, hpieces⟩ := pieces_append hw ds
      exact ⟨[], [], q, qs, rfl, hds, hpieces⟩
  | c :: cs => by
      obtain ⟨ps, p, q, qs, hcs, hds, hpieces⟩ := pieces_around hw ds cs
      rw [List.cons_append, pieces, pieces, hcs, hpieces]
      split
      · exact ⟨[] :: ps, p, q, qs, rfl, hds, rfl⟩
      · cases ps with
        | nil => exact ⟨[], c :: p, q, qs, rfl, hds, rfl⟩
        | cons p' ps => exact ⟨(c :: p') :: ps, p, q, qs, rfl, hds, rfl⟩

theorem afterPrefix?_append (pre rest : List Char) :
    afterPrefix? pre (pre ++ rest) = some rest := by
  induction pre with
  | nil => rfl
  | cons p ps ih => simp [afterPrefix?, ih]

/-- A prefix is found exactly where the text is that prefix and what follows. -/
theorem afterPrefix?_eq_some_iff {pre cs rest : List Char} :
    afterPrefix? pre cs = some rest ↔ cs = pre ++ rest := by
  constructor
  · intro h
    induction pre generalizing cs with
    | nil => simp_all [afterPrefix?]
    | cons p ps ih =>
      cases cs with
      | nil => simp [afterPrefix?] at h
      | cons c cs =>
        simp only [afterPrefix?] at h
        split at h
        · next hp => subst hp; rw [ih h]; rfl
        · cases h
  · rintro rfl
    exact afterPrefix?_append pre rest

theorem dropPrefix?_eq_some_iff {pre s rest : String} :
    dropPrefix? pre s = some rest ↔ s = pre ++ rest := by
  rw [dropPrefix?, Option.map_eq_some_iff]
  simp only [afterPrefix?_eq_some_iff]
  constructor
  · rintro ⟨cs, hs, rfl⟩
    rw [← String.ofList_toList (s := s), hs, String.ofList_append, String.ofList_toList]
  · rintro rfl
    exact ⟨rest.toList, String.toList_append, String.ofList_toList⟩

end EndpointBindings.Text
