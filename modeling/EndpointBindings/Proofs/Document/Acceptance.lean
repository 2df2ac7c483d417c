import EndpointBindings.Proofs.Document.Sources

/-!
# Which trees are documents

A tree is refused for its version and for nothing else.  Reading the typed view asks that the root
is a record: an object, or a list with no more items than a root has fields
(`Document.ofJson_error_iff`).  A version is a member of an object, so a root that declares one is a
record, and the conversion from Swagger 2 gives an object whatever it is given.  What is left to
fail is `Version.detect`, which looks at two members of the root (`accepted_iff_supported`).

| member | what counts |
|---|---|
| `openapi` | a string decides: accepted from `3.` on, refused otherwise |
| `swagger` | asked where `openapi` is no string: accepted when a string from `2.` on |
-/

namespace EndpointBindings

/-! ## Members of a root -/

theorem Text.startsWith_iff {pre s : String} :
    Text.startsWith pre s = true ↔ pre.toList <+: s.toList := by
  rw [Text.startsWith, Option.isSome_iff_exists]
  simp only [Text.afterPrefix?_eq_some_iff]
  exact ⟨fun ⟨rest, h⟩ => ⟨rest, h.symm⟩, fun ⟨rest, h⟩ => ⟨rest, h.symm⟩⟩

theorem Json.get?_eq_some_iff {v w : Json} {key : String} :
    v.get? key = some w ↔ ∃ ms, v = .object ms ∧ Ordered.get? ms key = some w := by
  rw [Json.get?, Option.bind_eq_some_iff]
  constructor
  · rintro ⟨ms, hms, hw⟩
    exact ⟨ms, Json.eq_of_members? hms, hw⟩
  · rintro ⟨ms, rfl, hw⟩
    exact ⟨ms, rfl, hw⟩

theorem Json.string?_eq_some_iff {v : Json} {s : String} : v.string? = some s ↔ v = .string s := by
  cases v with
  | string t => simp [Json.string?]
  | null | bool _ | number _ | list _ | object _ => simp [Json.string?]

/-- The string at a key of a root. -/
theorem Json.bind_string?_eq_some_iff {v : Json} {key s : String} :
    (v.get? key).bind Json.string? = some s ↔ v.get? key = some (.string s) := by
  rw [Option.bind_eq_some_iff]
  simp only [Json.string?_eq_some_iff]
  exact ⟨fun ⟨_, hw, he⟩ => he ▸ hw, fun h => ⟨_, h, rfl⟩⟩

/-! ## Versions -/

/-- A root whose version is one of those that are read. -/
inductive Json.Supported : Json → Prop
  | openApi3 {ms : List (String × Json)} {version : String}
      (hversion : Ordered.get? ms "openapi" = some (.string version))
      (hthree : "3.".toList <+: version.toList) : Supported (.object ms)
  | swagger2 {ms : List (String × Json)} {version : String}
      (hnone : ∀ other, Ordered.get? ms "openapi" ≠ some (.string other))
      (hversion : Ordered.get? ms "swagger" = some (.string version))
      (htwo : "2.".toList <+: version.toList) : Supported (.object ms)

/-- What is said of a tree's version, and why. -/
inductive Version.Verdict (v : Json) : Except Failure Version → Prop
  | openApi3 {version : String} (hversion : v.get? "openapi" = some (.string version))
      (hthree : "3.".toList <+: version.toList) : Verdict v (.ok .openApi3)
  | otherOpenApi {version : String} (hversion : v.get? "openapi" = some (.string version))
      (hthree : ¬ "3.".toList <+: version.toList) :
      Verdict v (.error (.unsupportedOpenApi version))
  | swagger2 {version : String} (hnone : ∀ other, v.get? "openapi" ≠ some (.string other))
      (hversion : v.get? "swagger" = some (.string version))
      (htwo : "2.".toList <+: version.toList) : Verdict v (.ok .swagger2)
  | otherSwagger {w : Json} (hnone : ∀ other, v.get? "openapi" ≠ some (.string other))
      (hversion : v.get? "swagger" = some w)
      (htwo : ∀ version, w = .string version → ¬ "2.".toList <+: version.toList) :
      Verdict v (.error (.unsupportedSwagger w))
  | noVersion (hnone : ∀ other, v.get? "openapi" ≠ some (.string other))
      (hswagger : v.get? "swagger" = none) : Verdict v (.error .noVersion)

theorem Version.verdict_detect (v : Json) : Verdict v (detect v) := by
  rw [detect]
  cases hopenapi : (v.get? "openapi").bind Json.string? with
  | some version =>
      have hversion := Json.bind_string?_eq_some_iff.1 hopenapi
      dsimp only
      split
      · next h => exact .openApi3 hversion (Text.startsWith_iff.1 h)
      · next h => exact .otherOpenApi hversion (mt Text.startsWith_iff.2 h)
  | none =>
      have hnone : ∀ other, v.get? "openapi" ≠ some (.string other) := by
        intro other h
        rw [Json.bind_string?_eq_some_iff.2 h] at hopenapi
        cases hopenapi
      cases hswagger : v.get? "swagger" with
      | none => exact .noVersion hnone hswagger
      | some w =>
          cases w with
          | string version =>
              dsimp only
              split
              · next h => exact .swagger2 hnone hswagger (Text.startsWith_iff.1 h)
              · next h =>
                  refine .otherSwagger hnone hswagger ?_
                  rintro _ ⟨⟩
                  exact mt Text.startsWith_iff.2 h
          | null | bool _ | number _ | list _ | object _ => exact .otherSwagger hnone hswagger nofun

/-- A version is found exactly where the root has one that is read. -/
theorem Version.exists_detect_iff (v : Json) :
    (∃ version, Version.detect v = .ok version) ↔ v.Supported := by
  have hverdict := Version.verdict_detect v
  constructor
  · rintro ⟨version, h⟩
    rw [h] at hverdict
    cases hverdict with
    | openApi3 hversion hthree =>
        obtain ⟨ms, rfl, hget⟩ := Json.get?_eq_some_iff.1 hversion
        exact .openApi3 hget hthree
    | swagger2 hnone hversion htwo =>
        obtain ⟨ms, rfl, hget⟩ := Json.get?_eq_some_iff.1 hversion
        exact .swagger2 hnone hget htwo
  · intro h
    generalize Version.detect v = verdict at hverdict
    cases hverdict with
    | openApi3 | swagger2 => exact ⟨_, rfl⟩
    | otherOpenApi hversion hthree =>
        cases h with
        | openApi3 hget h =>
            cases hversion.symm.trans hget
            exact absurd h hthree
        | swagger2 hnone _ _ => exact absurd hversion (hnone _)
    | otherSwagger hnone hversion htwo =>
        cases h with
        | openApi3 hget _ => exact absurd hget (hnone _)
        | swagger2 _ hget h =>
            cases hversion.symm.trans hget
            exact absurd h (htwo _ rfl)
    | noVersion hnone hswagger =>
        cases h with
        | openApi3 hget _ => exact absurd hget (hnone _)
        | swagger2 _ hget _ => exact absurd (hswagger.symm.trans hget) nofun

theorem Version.stage_of_detect_error {v : Json} {failure : Failure}
    (h : Version.detect v = .error failure) : failure.stage = .parse := by
  have hverdict := Version.verdict_detect v
  rw [h] at hverdict
  cases hverdict with
  | otherOpenApi | otherSwagger | noVersion => rfl

/-! ## Roots that are records -/

/-- A root is a record when it is an object or a list of at most five items. -/
theorem Json.isSome_record?_iff (v : Json) : (v.record? Spec.fields).isSome ↔
    (∃ ms, v = .object ms) ∨ ∃ xs, v = .list xs ∧ xs.length ≤ 5 := by
  cases v with
  | object ms => simp [Json.record?]
  | list xs =>
      have hfields : Spec.fields.length = 5 := rfl
      rw [Json.record?, hfields]
      split
      · next h => exact ⟨fun _ => .inr ⟨xs, rfl, h⟩, fun _ => rfl⟩
      · next h => simpa using h
  | null | bool _ | number _ | string _ => simp [Json.record?]

theorem Document.ofJson_error_iff (v : Json) : (∃ failure, Document.ofJson v = .error failure) ↔
    ¬ ((∃ ms, v = .object ms) ∨ ∃ xs, v = .list xs ∧ xs.length ≤ 5) := by
  rw [← Json.isSome_record?_iff, Document.ofJson, Spec.ofJson]
  cases v.record? Spec.fields with
  | none => exact iff_of_true ⟨_, rfl⟩ (by simp)
  | some r =>
      refine iff_of_false ?_ (by simp)
      rintro ⟨failure, h⟩
      cases h

/-! ## The whole way -/

/-- The tree of version 3 of a root with a version is an object. -/
theorem exists_toOpenApi3 {v : Json} {version : Version} (h : Version.detect v = .ok version) :
    ∃ ms, toOpenApi3 v = .ok (.object ms) := by
  have hsupported := (Version.exists_detect_iff v).1 ⟨_, h⟩
  cases version with
  | openApi3 =>
      rw [toOpenApi3_of_openApi3 h]
      cases hsupported with | openApi3 | swagger2 => exact ⟨_, rfl⟩
  | swagger2 => exact ⟨_, toOpenApi3_of_swagger2 h⟩

/-- A root of version 3 is read as it is. -/
theorem exists_document {v : Json} (h : Version.detect v = .ok .openApi3) :
    ∃ doc : Document, Document.ofJson v = .ok doc ∧ Api.ofJson v = .ok doc.api := by
  have hroot : toOpenApi3 v = .ok v := toOpenApi3_of_openApi3 h
  obtain ⟨ms, htree⟩ := exists_toOpenApi3 h
  cases hroot.symm.trans htree
  have hdoc : Document.ofJson (.object ms) = .ok ⟨.object ms, Spec.ofRecord ms⟩ :=
    Document.ofJson_eq_ok_iff.2 ⟨ms, rfl, rfl⟩
  exact ⟨_, hdoc, Api.ofJson_of_document hroot hdoc⟩

/-- A tree is refused for its version alone, and for the reason that its version gives. -/
theorem Api.ofJson_error_iff (v : Json) (failure : Failure) :
    Api.ofJson v = .error failure ↔ Version.detect v = .error failure := by
  cases h : Version.detect v with
  | error failure' =>
      have hapi : Api.ofJson v = .error failure' := by
        rw [Api.ofJson, toOpenApi3_of_error h]
        rfl
      rw [hapi, Except.error.injEq, Except.error.injEq]
  | ok version =>
      obtain ⟨ms, htree⟩ := exists_toOpenApi3 h
      rw [Api.ofJson_of_object htree]
      refine iff_of_false ?_ ?_ <;> intro h <;> cases h

theorem Api.exists_ofJson_iff (v : Json) : (∃ api, Api.ofJson v = .ok api) ↔ v.Supported := by
  rw [← Version.exists_detect_iff]
  cases hapi : Api.ofJson v with
  | ok api =>
      cases h : Version.detect v with
      | ok version => exact ⟨fun _ => ⟨version, rfl⟩, fun _ => ⟨api, rfl⟩⟩
      | error failure =>
          rw [(Api.ofJson_error_iff v failure).2 h] at hapi
          cases hapi
  | error failure =>
      rw [(Api.ofJson_error_iff v failure).1 hapi]
      exact ⟨nofun, nofun⟩

/-- **Only the version makes a document fail.**  The typed view cannot be read exactly from a tree
that is neither an object nor a list of at most five items.  An API is read exactly from an object
whose version is one of those that are read, and any other tree fails to be parsed.  The failure is
the one that the version gives, so that trees with the same `openapi` and `swagger` at their roots
fail alike, whatever else they hold and however deep. -/
theorem accepted_iff_supported (v : Json) :
    ((∃ failure, Document.ofJson v = .error failure) ↔
      ¬ ((∃ ms, v = .object ms) ∨ ∃ xs, v = .list xs ∧ xs.length ≤ 5)) ∧
    ((∃ api, Api.ofJson v = .ok api) ↔ v.Supported) ∧
    ((∃ failure, Api.ofJson v = .error failure ∧ failure.stage = .parse) ↔ ¬ v.Supported) ∧
    ∀ w : Json, w.get? "openapi" = v.get? "openapi" → w.get? "swagger" = v.get? "swagger" →
      ∀ failure, Api.ofJson w = .error failure ↔ Api.ofJson v = .error failure := by
  refine ⟨Document.ofJson_error_iff v, Api.exists_ofJson_iff v, ?_, ?_⟩
  · rw [← Api.exists_ofJson_iff]
    cases hapi : Api.ofJson v with
    | ok api => exact ⟨nofun, fun h => absurd ⟨api, rfl⟩ h⟩
    | error failure =>
        have hstage := Version.stage_of_detect_error ((Api.ofJson_error_iff v failure).1 hapi)
        exact ⟨fun _ => nofun, fun _ => ⟨failure, rfl, hstage⟩⟩
  · intro w hopenapi hswagger failure
    rw [Api.ofJson_error_iff, Api.ofJson_error_iff, Version.detect, Version.detect, hopenapi,
      hswagger]

/-! ### A document that says its version -/

/-- Everything but the version is of the wrong kind. -/
def brokenTree : Json :=
  .object [("openapi", .string "3.1"), ("servers", .string "none"), ("paths", .list [.null]),
    ("components", .object [("schemas", .bool true)])]

/-- It is accepted, as a document is that holds the version alone. -/
theorem brokenTree_accepted :
    (∃ api, Api.ofJson brokenTree = .ok api) ∧
    brokenTree.get? "openapi" = some (.string "3.1") ∧ brokenTree.get? "swagger" = none ∧
    ∀ failure, Api.ofJson brokenTree = .error failure ↔
      Api.ofJson (.object [("openapi", .string "3.1")]) = .error failure := by
  obtain ⟨-, haccepted, -, -⟩ := accepted_iff_supported brokenTree
  obtain ⟨-, -, -, hsame⟩ := accepted_iff_supported (.object [("openapi", .string "3.1")])
  exact ⟨haccepted.2 (.openApi3 rfl (by decide)), rfl, rfl, hsame brokenTree rfl rfl⟩

end EndpointBindings
