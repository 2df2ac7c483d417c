import EndpointBindings.Proofs.Routes.Parameters
import Mathlib.Data.List.Nodup

/-!
# Parameters that override others

Parameters are placed in a list, which is gone through for each of them.  What comes out is a table
under names and locations, filled with the declared parameters one after the other: a parameter
stands where its key is declared first, and is what is declared last.

An endpoint's query is what the table holds for that location.  So no name is in it twice, and the
object that is made of it has one property for each entry.  The names that the object requires are
kept apart from its properties; that a property is required exactly when its own parameter is rests
on the names being distinct (`contains_required`).

| | |
| :-- | :-- |
| `Overridden declared ps` | `ps` is the table that the declared parameters leave |
| `Synthesized query node` | `node` is the object of the query's entries |
| `parameters_override` | the theorem |
-/

namespace EndpointBindings

open Ordered (keys)

/-! ## The table of parameters -/

/-- What parameters are told apart by. -/
structure ParameterKey where
  name : String
  location : String
deriving DecidableEq

def Parameter.key (p : Parameter) : ParameterKey := ⟨p.name, p.location⟩

/-- A parameter under its key. -/
def Parameter.keyed (p : Parameter) : ParameterKey × Parameter := (p.key, p)

/-- The parameters that are declared for an operation and can be read, those of its path first. -/
def declaredParameters (shared own : List Json) : List Parameter :=
  (shared ++ own).filterMap readParameter?

/-- `ps` is what a table under names and locations keeps of the declared parameters. -/
structure Overridden (declared ps : List Parameter) : Prop where
  table : ps.map Parameter.keyed = Ordered.ofWrites (declared.map Parameter.keyed)
  /-- Each key is there once. -/
  distinct : (ps.map Parameter.key).Nodup
  /-- It stands where it is declared first. -/
  first : ps.map Parameter.key = (declared.map Parameter.key).eraseDups
  /-- The parameter is the one that is declared last. -/
  last : ∀ p, p ∈ ps ↔ declared.findRev? (·.key = p.key) = some p

/-- Placing a parameter writes it under its key. -/
theorem map_keyed_placeParameter (ps : List Parameter) (p : Parameter) :
    (placeParameter ps p).map Parameter.keyed = Ordered.put (ps.map Parameter.keyed) p.key p := by
  induction ps with
  | nil => rfl
  | cons q ps ih =>
      have hsame : (q.name = p.name ∧ q.location = p.location) ↔ q.key = p.key := by
        rw [Parameter.key, Parameter.key, ParameterKey.mk.injEq]
      rw [placeParameter, List.map_cons, Parameter.keyed, Ordered.put]
      by_cases hkey : q.key = p.key
      · rw [if_pos (hsame.2 hkey), if_pos hkey, hkey]
        rfl
      · rw [if_neg (mt hsame.1 hkey), if_neg hkey, List.map_cons, ih]
        rfl

theorem map_keyed_foldl (ps qs : List Parameter) :
    (ps.foldl placeParameter qs).map Parameter.keyed =
      Ordered.putAll (qs.map Parameter.keyed) (ps.map Parameter.keyed) := by
  induction ps generalizing qs with
  | nil => rfl
  | cons p ps ih =>
      rw [List.foldl_cons, ih, map_keyed_placeParameter, List.map_cons, Ordered.putAll_cons]
      rfl

theorem keys_map_keyed (ps : List Parameter) :
    keys (ps.map Parameter.keyed) = ps.map Parameter.key := by
  rw [keys, List.map_map]
  rfl

/-- A list of parameters that is such a table. -/
theorem Overridden.of_table {declared ps : List Parameter}
    (htable : ps.map Parameter.keyed = Ordered.ofWrites (declared.map Parameter.keyed)) :
    Overridden declared ps := by
  have hdistinct : (keys (ps.map Parameter.keyed)).Nodup := by
    rw [htable]
    exact Ordered.nodup_keys_ofWrites _
  refine ⟨htable, ?_, ?_, fun p => ?_⟩
  · rwa [keys_map_keyed] at hdistinct
  · rw [← keys_map_keyed, htable]
    exact Ordered.keys_ofWrites_map Parameter.key id declared
  · have hget : Ordered.get? (ps.map Parameter.keyed) p.key =
        declared.findRev? (·.key = p.key) := by
      rw [htable]
      refine (Ordered.get?_ofWrites_map Parameter.key id declared p.key).trans ?_
      rw [Option.map_id, id]
    have hmem : p ∈ ps ↔ p.keyed ∈ ps.map Parameter.keyed := by
      refine ⟨List.mem_map_of_mem, fun h => ?_⟩
      obtain ⟨q, hq, hqp⟩ := List.mem_map.1 h
      cases congrArg Prod.snd hqp
      exact hq
    rw [hmem, ← hget]
    exact ⟨Ordered.get?_of_mem hdistinct, Ordered.mem_of_get?⟩

/-- Placing the declared parameters leaves that table. -/
theorem overridden_effectiveParameters (shared own : List Json) :
    Overridden (declaredParameters shared own) (effectiveParameters shared own) :=
  .of_table (map_keyed_foldl _ [])

/-! ## The object of a query -/

/-- `node` is the object of the entries of a query, and there is none when there are no entries. -/
structure Synthesized (query : List NamedNode) (node : Option Node) : Prop where
  none_iff : node = none ↔ query = []
  /-- The properties are the entries, and one is required exactly when its entry is. -/
  object : query ≠ [] → ∃ required,
    node = some (.object (query.map fun p => (p.name, p.node)) required) ∧
      (∀ p ∈ query, required.contains p.name = p.required) ∧
      ∀ name ∈ required, ∃ p ∈ query, p.name = name

/-- Of entries with distinct names, one is among the required ones exactly when it is required. -/
theorem contains_required {query : List NamedNode} (hnames : (query.map (·.name)).Nodup)
    {p : NamedNode} (hp : p ∈ query) :
    ((query.filter (·.required)).map (·.name)).contains p.name = p.required := by
  rw [Bool.eq_iff_iff, List.contains_iff_mem, List.mem_map]
  constructor
  · rintro ⟨q, hq, hname⟩
    obtain ⟨hq, hrequired⟩ := List.mem_filter.1 hq
    rwa [← List.inj_on_of_nodup_map hnames hq hp hname]
  · intro hrequired
    exact ⟨p, List.mem_filter.2 ⟨hp, hrequired⟩, rfl⟩

theorem synthesized_queryNode {e : Endpoint} (hnames : (e.query.map (·.name)).Nodup) :
    Synthesized e.query e.queryNode := by
  have hkeys : (keys (e.query.map fun p => (p.name, p.node))).Nodup := by
    rw [keys, List.map_map]
    exact hnames
  have hnode : e.query ≠ [] → e.queryNode =
      some (.object (e.query.map fun p => (p.name, p.node))
        ((e.query.filter (·.required)).map (·.name))) := by
    intro hne
    rw [← Ordered.ofWrites_of_nodup hkeys, Endpoint.queryNode]
    cases hquery : e.query with
    | nil => exact absurd hquery hne
    | cons p query => rfl
  refine ⟨⟨fun hnone => ?_, fun hnil => ?_⟩, fun hne => ?_⟩
  · by_contra hne
    cases (hnode hne).symm.trans hnone
  · rw [Endpoint.queryNode, hnil]
  · refine ⟨_, hnode hne, fun p hp => contains_required hnames hp, fun name hname => ?_⟩
    obtain ⟨p, hp, rfl⟩ := List.mem_map.1 hname
    exact ⟨p, (List.mem_filter.1 hp).1, rfl⟩

/-! ## The theorem -/

/-- At one location the names alone are distinct. -/
theorem names_nodup_parametersAt (doc : Document) (location : String) {ps : List Parameter}
    (hps : (ps.map Parameter.key).Nodup) :
    ((parametersAt doc location ps).map (·.name)).Nodup := by
  have hkeys : (ps.filter (·.location = location)).map Parameter.key =
      ((parametersAt doc location ps).map (·.name)).map fun name => ⟨name, location⟩ := by
    rw [parametersAt, List.map_map, List.map_map]
    refine List.map_congr_left fun p hp => ?_
    have hlocation : p.location = location := by simpa using (List.mem_filter.1 hp).2
    rw [Parameter.key, hlocation]
    rfl
  have hsublist := (List.filter_sublist (p := (·.location = location)) (l := ps)).map Parameter.key
  rw [hkeys] at hsublist
  exact (hsublist.nodup hps).of_map

/-- **Parameters override others by name and location.**  The parameters that take effect for an
operation are a table under names and locations, filled with the readable parameters of its path and
then with its own.  The endpoint's query and path parameters are those of the table at their
location, in order and without a name twice, and the object that is made of the query says of each
name what its parameter says. -/
theorem parameters_override (doc : Document) (verb : Verb) (shared : List Json) (op : Operation) :
    Overridden (declaredParameters shared op.parameters)
      (effectiveParameters shared op.parameters) ∧
    (endpointOf doc verb shared op).query =
      ((effectiveParameters shared op.parameters).filter (·.location = "query")).map
        (namedNodeIn doc) ∧
    (endpointOf doc verb shared op).pathParams =
      ((effectiveParameters shared op.parameters).filter (·.location = "path")).map
        (namedNodeIn doc) ∧
    ((endpointOf doc verb shared op).query.map (·.name)).Nodup ∧
    ((endpointOf doc verb shared op).pathParams.map (·.name)).Nodup ∧
    Synthesized (endpointOf doc verb shared op).query
      (endpointOf doc verb shared op).queryNode := by
  have htable := overridden_effectiveParameters shared op.parameters
  have hquery : ((endpointOf doc verb shared op).query.map (·.name)).Nodup :=
    names_nodup_parametersAt doc "query" htable.distinct
  have hpath : ((endpointOf doc verb shared op).pathParams.map (·.name)).Nodup :=
    names_nodup_parametersAt doc "path" htable.distinct
  exact ⟨htable, rfl, rfl, hquery, hpath, synthesized_queryNode hquery⟩

end EndpointBindings
