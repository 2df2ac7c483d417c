import EndpointBindings.Proofs.Dialects.Modernize
import EndpointBindings.Proofs.Document.Sources

/-!
# Path items in the conversion

A path item is converted member by member, except for the parameters that its operations share: they
come first, and taking them out moves the last member into their place.  This is said here in one
equation (`convertPathItem_object`), with what is shared as a function of the members.

A list of parameters, of a path or of an operation, is taken apart: the elements that stay are
converted in their order, and of the bodies among them the last one counts (`splitItems_eq`).
-/

namespace EndpointBindings

open Ordered (get?)
open Swagger (modernize convertParameter location? requestBodyOf splitItems)

/-! ## Lists of parameters, taken apart -/

/-- The parameters that an object lists. -/
def listedParameters (ms : List (String × Json)) : List Json :=
  (Json.field? ms "parameters" Json.list?).getD []

theorem listedParameters_map_modernize {ms ns : List (String × Json)}
    (h : get? ns "parameters" = (get? ms "parameters").map modernize) :
    listedParameters ns = (listedParameters ms).map modernize := by
  rw [listedParameters, listedParameters, Json.field?, Json.field?, h]
  cases get? ms "parameters" with
  | none => rfl
  | some u =>
      cases u with
      | list xs => exact Swagger.modernizeItems_eq xs
      | null | bool _ | number _ | string _ | object _ => rfl

/-- An element that is neither a body nor a form field. -/
def staysParameter (p : Json) : Bool :=
  location? p ≠ some "body" && location? p ≠ some "formData"

/-- The last body of a list. -/
def lastBody (ps : List Json) : Option Json := ps.findRev? (location? · = some "body")

theorem lastBody_cons (p : Json) (ps : List Json) : lastBody (p :: ps) =
    (lastBody ps).or (if location? p = some "body" then some p else none) := by
  rw [lastBody, lastBody, List.findRev?_eq_find?_reverse, List.findRev?_eq_find?_reverse,
    List.reverse_cons, List.find?_append, List.find?_singleton]
  simp only [decide_eq_true_eq]

/-- The parameters that stay are converted in their order, and the last body is taken. -/
theorem splitItems_eq (ps : List Json) : splitItems ps =
    ((ps.filter staysParameter).map convertParameter, (lastBody ps).map requestBodyOf) := by
  induction ps with
  | nil => rfl
  | cons p ps ih =>
      rw [splitItems, ih, lastBody_cons, List.filter_cons, staysParameter]
      dsimp only
      split
      · next h =>
          rw [h]
          cases lastBody ps <;> rfl
      · next h =>
          rw [h]
          cases lastBody ps <;> rfl
      · next hbody hform =>
          have hbody : location? p ≠ some "body" := hbody
          have hform : location? p ≠ some "formData" := hform
          simp [hbody, hform]

/-- What holds of every element, converted or made a body, holds of what the list comes to. -/
theorem forall_splitItems {P : Json → Prop} {ps : List Json}
    (hparameter : ∀ p ∈ ps, P (convertParameter p)) (hbody : ∀ p ∈ ps, P (requestBodyOf p)) :
    (∀ q ∈ (splitItems ps).1, P q) ∧ ∀ body, (splitItems ps).2 = some body → P body := by
  rw [splitItems_eq]
  constructor
  · intro q hq
    obtain ⟨p, hp, rfl⟩ := List.mem_map.1 hq
    exact hparameter p (List.mem_of_mem_filter hp)
  · intro body hlast
    obtain ⟨p, hp, rfl⟩ := Option.map_eq_some_iff.1 hlast
    rw [lastBody, List.findRev?_eq_find?_reverse] at hp
    exact hbody p (List.mem_reverse.1 (List.mem_of_find?_eq_some hp))

end EndpointBindings

namespace EndpointBindings.Swagger

open Ordered (get? keys)

/-- A member of a path item, converted; `body` is what the path shares. -/
def convertEntry (body : Option Json) (e : String × Json) : String × Json :=
  if Verb.keys.contains e.1 then (e.1, withBody body (convertOperation e.2)) else e

/-- The member for the parameters that the operations of a path share. -/
def sharedMember (ms : List (String × Json)) : List (String × Json) :=
  match get? ms "parameters" with
  | some parameters => [("parameters", .list (splitParameters parameters).1)]
  | none => []

/-- The body that the operations of a path share. -/
def sharedBody (ms : List (String × Json)) : Option Json :=
  (get? ms "parameters").bind fun parameters => (splitParameters parameters).2

theorem convertPathItem_object (ms : List (String × Json)) :
    convertPathItem (.object ms) = .object (sharedMember ms ++
      (Ordered.swapErase ms "parameters").map (convertEntry (sharedBody ms))) := by
  rw [convertPathItem, sharedMember, sharedBody]
  cases get? ms "parameters" <;> rfl

@[simp] theorem convertEntry_fst (body : Option Json) (e : String × Json) :
    (convertEntry body e).1 = e.1 := by
  rw [convertEntry]
  split <;> rfl

theorem keys_map_convertEntry (body : Option Json) (ms : List (String × Json)) :
    keys (ms.map (convertEntry body)) = keys ms := by
  rw [keys, keys, List.map_map]
  exact List.map_congr_left fun e _ => convertEntry_fst body e

/-! ## The members of a parameter -/

/-- A converted parameter has some of its members, and perhaps a schema of others. -/
theorem convertParameter_object (ms : List (String × Json)) :
    (∃ keep, convertParameter (.object ms) = .object (ms.filter keep)) ∨
      ∃ keep fields, convertParameter (.object ms) =
        .object (Ordered.put (ms.filter keep) "schema" (.object (ms.filter fields))) := by
  rw [convertParameter]
  split
  · exact .inl ⟨fun _ => true, by rw [List.filter_true]⟩
  · next hown =>
      simp only [Bool.or_eq_true, not_or, Bool.not_eq_true] at hown
      have hschema : "schema" ∉ keys ms := by
        rw [← Ordered.get?_isSome_iff, Bool.not_eq_true]
        exact hown.2
      dsimp only
      split
      · exact .inl ⟨_, rfl⟩
      · rw [← Ordered.put_of_not_mem fun hmem => hschema ((List.filter_sublist.map _).mem hmem)]
        exact .inr ⟨_, _, rfl⟩

/-! ## The members of an operation -/

/-- What becomes of the value of an operation's member, where it stays. -/
def convertedValue (key : String) (v : Json) : Json :=
  match key with
  | "parameters" => .list (splitParameters v).1
  | "responses" =>
    match v with
    | .object ms => .object (Ordered.mapValues convertResponse ms)
    | other => other
  | _ => v

/-- The members of an operation that its conversion leaves out. -/
def droppedMembers : List String := ["consumes", "produces", "schemes"]

/-- What an operation's member writes into the converted operation. -/
def convertedMember (e : String × Json) : List (String × Json) :=
  if e.1 ∈ droppedMembers then []
  else (e.1, convertedValue e.1 e.2) ::
    if e.1 = "parameters" then (splitParameters e.2).2.toList.map ("requestBody", ·) else []

theorem convertMember_eq (out : List (String × Json)) (k : String) (v : Json) :
    convertMember out k v = Ordered.putAll out (convertedMember (k, v)) := by
  unfold convertMember
  split
  · rw [convertedMember]
    cases hbody : (splitParameters v).2 <;>
      simp [convertedValue, droppedMembers, hbody, Ordered.putAll]
  · rfl
  · rfl
  · rfl
  · rfl
  · next hparameters hresponses hconsumes hproduces hschemes =>
      have hkept : k ∉ droppedMembers := by
        simp only [droppedMembers, List.mem_cons, List.not_mem_nil, or_false]
        rintro (h | h | h)
        · exact hconsumes h
        · exact hproduces h
        · exact hschemes h
      have hvalue : convertedValue k v = v := by
        rw [convertedValue]
        · exact hparameters
        · exact hresponses
      rw [convertedMember, if_neg hkept, if_neg hparameters, hvalue]
      rfl

/-- An operation is converted member by member. -/
theorem convertOperation_object (ms : List (String × Json)) :
    convertOperation (.object ms) = .object (Ordered.ofWrites (ms.flatMap convertedMember)) := by
  rw [convertOperation, Ordered.ofWrites, Ordered.putAll, List.foldl_flatMap]
  refine congrArg (fun f => Json.object (ms.foldl f [])) ?_
  funext out e
  exact convertMember_eq out e.1 e.2

/-- A body is written into an operation only where there is none. -/
theorem withBody_object (body : Option Json) (ms : List (String × Json)) :
    (withBody body (.object ms) = .object ms ∧
        (get? ms "requestBody").or body = get? ms "requestBody") ∨
      ∃ b, body = some b ∧ "requestBody" ∉ keys ms ∧
        withBody body (.object ms) = .object (Ordered.put ms "requestBody" b) := by
  cases body with
  | none => exact .inl ⟨rfl, Option.or_none⟩
  | some b =>
      rw [withBody]
      split
      · next hhas =>
          obtain ⟨own, hown⟩ := Option.isSome_iff_exists.1 hhas
          exact .inl ⟨rfl, by rw [hown, Option.some_or]⟩
      · next hnone =>
          have hfresh : "requestBody" ∉ keys ms := by rwa [← Ordered.get?_isSome_iff]
          exact .inr ⟨b, rfl, hfresh, by rw [Ordered.put_of_not_mem hfresh]⟩

/-- An operation with a body has its own parameters and one request body. -/
theorem exists_withBody (body : Option Json) (ms : List (String × Json)) :
    ∃ ns, withBody body (.object ms) = .object ns ∧ ((keys ms).Nodup → (keys ns).Nodup) ∧
      get? ns "parameters" = get? ms "parameters" ∧
      get? ns "requestBody" = (get? ms "requestBody").or body := by
  rcases withBody_object body ms with ⟨he, hbody⟩ | ⟨b, rfl, hfresh, he⟩
  · exact ⟨ms, he, id, rfl, hbody.symm⟩
  · refine ⟨_, he, fun hnodup => Ordered.nodup_keys_put hnodup _ _, ?_, ?_⟩
    · rw [Ordered.get?_put, if_neg (by decide)]
    · rw [Ordered.get?_put, if_pos rfl, Ordered.get?_eq_none_iff.2 hfresh, Option.none_or]

/-- A key of an operation that only its own member writes. -/
def Settled (key : String) : Prop := key ∉ "requestBody" :: droppedMembers

instance : DecidablePred Settled := fun key =>
  inferInstanceAs (Decidable (key ∉ "requestBody" :: droppedMembers))

theorem mem_convertedMember_iff {key : String} (hkey : Settled key) {e : String × Json} {v : Json} :
    (key, v) ∈ convertedMember e ↔ e.1 = key ∧ v = convertedValue key e.2 := by
  simp only [Settled, List.mem_cons, not_or] at hkey
  obtain ⟨hbody, hkept⟩ := hkey
  rw [convertedMember]
  split
  · next hdropped => exact iff_of_false List.not_mem_nil fun h => hkept (h.1 ▸ hdropped)
  · have hfresh : (key, v) ∉ if e.1 = "parameters" then
        (splitParameters e.2).2.toList.map ("requestBody", ·) else [] := by
      split
      · intro h
        obtain ⟨body, -, he⟩ := List.mem_map.1 h
        exact hbody (congrArg Prod.fst he).symm
      · exact List.not_mem_nil
    rw [List.mem_cons, or_iff_left hfresh, Prod.mk.injEq]
    constructor
    · rintro ⟨rfl, rfl⟩
      exact ⟨rfl, rfl⟩
    · rintro ⟨rfl, rfl⟩
      exact ⟨rfl, rfl⟩

/-- A request body is the operation's own or is made from its parameters. -/
theorem mem_convertedMember_requestBody {e : String × Json} {v : Json}
    (h : ("requestBody", v) ∈ convertedMember e) :
    e = ("requestBody", v) ∨ e.1 = "parameters" ∧ (splitParameters e.2).2 = some v := by
  rw [convertedMember] at h
  split at h
  · exact absurd h List.not_mem_nil
  · rcases List.mem_cons.1 h with h | h
    · obtain ⟨hkey, hvalue⟩ := Prod.mk.inj h
      rw [← hkey] at hvalue
      exact .inl (Prod.ext hkey.symm hvalue.symm)
    · split at h
      · next hkey =>
          obtain ⟨body, hbody, he⟩ := List.mem_map.1 h
          cases he
          exact .inr ⟨hkey, Option.mem_toList.1 hbody⟩
      · exact absurd h List.not_mem_nil

/-- What the converted operation says at such a key. -/
theorem get?_convertedMembers {ms : List (String × Json)} (hnodup : (keys ms).Nodup) {key : String}
    (hkey : Settled key) :
    get? (Ordered.ofWrites (ms.flatMap convertedMember)) key =
      (get? ms key).map (convertedValue key) := by
  have hmem : ∀ v, (key, v) ∈ ms.flatMap convertedMember ↔
      ∃ u, (key, u) ∈ ms ∧ v = convertedValue key u := by
    intro v
    rw [List.mem_flatMap]
    constructor
    · rintro ⟨⟨k, u⟩, hu, hv⟩
      obtain ⟨rfl, rfl⟩ := (mem_convertedMember_iff hkey).1 hv
      exact ⟨u, hu, rfl⟩
    · rintro ⟨u, hu, rfl⟩
      exact ⟨_, hu, (mem_convertedMember_iff hkey).2 ⟨rfl, rfl⟩⟩
  cases hu : get? ms key with
  | none =>
      rw [Option.map_none, Ordered.get?_eq_none_iff, Ordered.keys_ofWrites, List.mem_eraseDups]
      intro h
      obtain ⟨⟨_, v⟩, hv, rfl⟩ := List.mem_map.1 h
      obtain ⟨u, hmember, -⟩ := (hmem v).1 hv
      exact Ordered.get?_eq_none_iff.1 hu (Ordered.mem_keys_of_mem hmember)
  | some u =>
      refine Ordered.get?_ofWrites_of_unique ((hmem _).2 ⟨u, Ordered.mem_of_get? hu, rfl⟩) ?_
      intro v hv
      obtain ⟨u', hmember, rfl⟩ := (hmem v).1 hv
      rw [Ordered.get?_of_mem hnodup hmember] at hu
      cases hu
      rfl

/-! ## Operations stay operations -/

/-- Values that can be read as operations, both or neither. -/
def BothReadable (v v' : Json) : Prop :=
  (Operation.ofJson? v).isSome = (Operation.ofJson? v').isSome

/-- The rewrite of a tree neither makes nor spoils an operation. -/
theorem bothReadable_modernizeAt (k : String) (v : Json) :
    BothReadable v (modernizeAt k v) := by
  rw [BothReadable, isSome_operation, isSome_operation]
  cases v with
  | string target =>
      rw [modernizeAt]
      split <;> rfl
  | list xs =>
      show _ = (Json.record? _ (.list (modernizeItems xs))).isSome
      rw [Json.record?, Json.record?, modernizeItems_eq, List.length_map]
      split <;> rfl
  | null | bool _ | number _ | object _ => rfl

/-- Nor does the conversion. -/
theorem bothReadable_convertEntry (body : Option Json) (k : String) (v : Json) :
    BothReadable v (convertEntry body (k, v)).2 := by
  rw [BothReadable, isSome_operation, isSome_operation, convertEntry]
  split
  · cases v with
    | object ms =>
        cases body with
        | none => rfl
        | some b =>
            rw [convertOperation, withBody]
            split <;> rfl
    | null | bool _ | number _ | string _ | list _ => cases body <;> rfl
  · rfl

end EndpointBindings.Swagger
