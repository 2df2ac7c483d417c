import EndpointBindings.Proofs.Tables
import EndpointBindings.Route.Extract

/-!
# Which parameters take effect

Parameters are placed one after the other, and each takes the place of the one with its name and
location.  Parameters at different locations do not see each other (`filter_foldl`), and at one
location they are written under their names as into a table (`map_entry_foldl`).  So the names at a
location stand in the order in which they are first declared (`names_parametersAt`).
-/

namespace EndpointBindings

open Ordered (keys)

theorem mem_placeParameter {ps : List Parameter} {p q : Parameter}
    (h : q ∈ placeParameter ps p) : q ∈ ps ∨ q = p := by
  induction ps with
  | nil => exact .inr (List.mem_singleton.1 h)
  | cons r ps ih =>
      rw [placeParameter] at h
      split at h
      · rcases List.mem_cons.1 h with rfl | h
        · exact .inr rfl
        · exact .inl (List.mem_cons_of_mem _ h)
      · rcases List.mem_cons.1 h with rfl | h
        · exact .inl List.mem_cons_self
        · exact (ih h).imp_left (List.mem_cons_of_mem _)

theorem mem_foldl_placeParameter {ps qs : List Parameter} {q : Parameter}
    (h : q ∈ ps.foldl placeParameter qs) : q ∈ qs ∨ q ∈ ps := by
  induction ps generalizing qs with
  | nil => exact .inl h
  | cons p ps ih =>
      rcases ih h with h | h
      · rcases mem_placeParameter h with h | rfl
        · exact .inl h
        · exact .inr List.mem_cons_self
      · exact .inr (List.mem_cons_of_mem _ h)

/-- A parameter at another location changes nothing at this one. -/
theorem filter_placeParameter (location : String) (ps : List Parameter) (p : Parameter) :
    (placeParameter ps p).filter (·.location = location) =
      if p.location = location then placeParameter (ps.filter (·.location = location)) p
      else ps.filter (·.location = location) := by
  induction ps with
  | nil => by_cases h : p.location = location <;> simp [placeParameter, h]
  | cons q ps ih =>
      rw [placeParameter]
      by_cases hsame : q.name = p.name ∧ q.location = p.location
      · rw [if_pos hsame, List.filter_cons, List.filter_cons, hsame.2]
        by_cases hp : p.location = location <;> simp [hp, hsame.1, hsame.2, placeParameter]
      · rw [if_neg hsame, List.filter_cons, List.filter_cons, ih]
        by_cases hq : q.location = location
        · by_cases hp : p.location = location
          · have hname : q.name ≠ p.name := fun h => hsame ⟨h, hq.trans hp.symm⟩
            simp [hp, hq, hname, placeParameter]
          · simp [hp, hq]
        · simp [hq]

theorem filter_foldl (location : String) (ps qs : List Parameter) :
    (ps.foldl placeParameter qs).filter (·.location = location) =
      (ps.filter (·.location = location)).foldl placeParameter
        (qs.filter (·.location = location)) := by
  induction ps generalizing qs with
  | nil => rfl
  | cons p ps ih =>
      rw [List.foldl_cons, ih, filter_placeParameter, List.filter_cons]
      by_cases h : p.location = location <;> simp [h]

/-! ## The names at a location -/

/-- A parameter under its name. -/
def Parameter.entry (p : Parameter) : String × Parameter := (p.name, p)

variable {location : String}

theorem map_entry_placeParameter {ps : List Parameter} (hps : ∀ q ∈ ps, q.location = location)
    {p : Parameter} (hp : p.location = location) :
    (placeParameter ps p).map Parameter.entry =
      Ordered.put (ps.map Parameter.entry) p.name p := by
  induction ps with
  | nil => rfl
  | cons q ps ih =>
      have hq : q.location = p.location := (hps q List.mem_cons_self).trans hp.symm
      rw [placeParameter, List.map_cons, Parameter.entry, Ordered.put]
      by_cases hname : q.name = p.name
      · rw [if_pos ⟨hname, hq⟩, if_pos hname, hname]
        rfl
      · rw [if_neg fun h => hname h.1, if_neg hname, List.map_cons,
          ih fun r hr => hps r (List.mem_cons_of_mem q hr)]
        rfl

theorem map_entry_foldl {ps qs : List Parameter} (hps : ∀ p ∈ ps, p.location = location)
    (hqs : ∀ q ∈ qs, q.location = location) :
    (ps.foldl placeParameter qs).map Parameter.entry =
      Ordered.putAll (qs.map Parameter.entry) (ps.map Parameter.entry) := by
  induction ps generalizing qs with
  | nil => rfl
  | cons p ps ih =>
      have hp := hps p List.mem_cons_self
      have hplaced : ∀ q ∈ placeParameter qs p, q.location = location := by
        intro q hq
        rcases mem_placeParameter hq with hq | rfl
        · exact hqs q hq
        · exact hp
      rw [List.foldl_cons, ih (fun q hq => hps q (List.mem_cons_of_mem p hq)) hplaced,
        map_entry_placeParameter hqs hp, List.map_cons, Ordered.putAll_cons]
      rfl

/-- The name that a parameter declares at a location. -/
def declared? (location : String) (v : Json) : Option String :=
  (readParameter? v).bind fun p => if p.location = location then some p.name else none

/-- The names that parameters declare at a location, each where it is declared first. -/
def declaredNames (location : String) (ps : List Json) : List String :=
  (ps.filterMap (declared? location)).eraseDups

theorem filterMap_declared? (location : String) (ps : List Json) :
    ps.filterMap (declared? location) =
      ((ps.filterMap readParameter?).filter (·.location = location)).map (·.name) := by
  induction ps with
  | nil => rfl
  | cons v ps ih =>
      rw [List.filterMap_cons, List.filterMap_cons, declared?]
      cases readParameter? v with
      | none => exact ih
      | some p =>
          rw [Option.bind_some]
          by_cases hlocation : p.location = location
          · rw [if_pos hlocation, List.filter_cons_of_pos (by simpa using hlocation), List.map_cons,
              ih]
          · rw [if_neg hlocation, List.filter_cons_of_neg (by simpa using hlocation), ih]

/-- **The parameters at a location stand in the order of their declarations.** -/
theorem names_parametersAt (doc : Document) (location : String) (shared own : List Json) :
    (parametersAt doc location (effectiveParameters shared own)).map (·.name) =
      declaredNames location (shared ++ own) := by
  let declared := ((shared ++ own).filterMap readParameter?).filter (·.location = location)
  have hlocation : ∀ p ∈ declared, p.location = location := by
    intro p hp
    simpa using (List.mem_filter.1 hp).2
  calc (parametersAt doc location (effectiveParameters shared own)).map (·.name)
      = (declared.foldl placeParameter []).map (·.name) := by
        rw [parametersAt, effectiveParameters, filter_foldl, List.map_map]
        rfl
    _ = keys ((declared.foldl placeParameter []).map Parameter.entry) := by
        rw [keys, List.map_map]
        rfl
    _ = keys (Ordered.ofWrites (declared.map Parameter.entry)) := by
        rw [map_entry_foldl hlocation fun q hq => absurd hq List.not_mem_nil]
        rfl
    _ = declaredNames location (shared ++ own) := by
        rw [Ordered.keys_ofWrites, List.map_map, declaredNames, filterMap_declared?]
        rfl

end EndpointBindings
