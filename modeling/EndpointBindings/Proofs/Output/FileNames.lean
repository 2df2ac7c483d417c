import EndpointBindings.Proofs.Document.Sources
import EndpointBindings.Proofs.Output.Trace
import Mathlib.Data.List.Forall2
import Mathlib.Data.List.Nodup

/-!
# Files that share a name

In many files, each route has a file whose name is made from its path.  The name does not keep the
path: leading slashes are dropped, a slash becomes a dot and a bracket becomes an underscore.  So
the files of different routes may have one name, and a route may have the name of the file of the
schemas; nothing looks for this, and the later file replaces the earlier one.

`SharesFile` says which paths these are.  When there are none of them, no file replaces another,
whatever writer the files are given to and whichever of its calls are refused; and when there are
any, some file does (`files_kept_iff`).
-/

namespace EndpointBindings

open Ordered (keys)

/-! ## Names of route files -/

/-- What of a path goes into the name of its file. -/
def fileText (path : String) : List Char :=
  match path.toList.dropWhile (· = '/') with
  | [] => "index".toList
  | cs => cs

/-- Characters that are the same in the name of a file. -/
def SameInFileName (c d : Char) : Prop :=
  c = d ∨ (c ∈ ['/', '.'] ∧ d ∈ ['/', '.']) ∨ (c ∈ ['[', ']', '_'] ∧ d ∈ ['[', ']', '_'])

/-- Paths whose routes have one file: what goes into its name is the same, character by
character. -/
def SharesFile (p q : String) : Prop := List.Forall₂ SameInFileName (fileText p) (fileText q)

theorem fileChar_eq_iff {c d : Char} : fileChar c = fileChar d ↔ SameInFileName c d := by
  simp only [SameInFileName, List.mem_cons, List.not_mem_nil, or_false]
  unfold fileChar
  grind

theorem slash_ne_fileChar (c : Char) : fileChar c ≠ '/' := by
  unfold fileChar
  grind

/-- A character stays what it is, unless a dot or an underscore comes out. -/
theorem fileChar_eq_self {c : Char} (h : fileChar c ∉ ['.', '_']) : fileChar c = c := by
  simp only [List.mem_cons, List.not_mem_nil, or_false, not_or] at h
  unfold fileChar at h ⊢
  grind

theorem map_fileChar_eq_iff {cs ds : List Char} :
    cs.map fileChar = ds.map fileChar ↔ List.Forall₂ SameInFileName cs ds := by
  rw [← List.forall₂_eq_eq_eq, List.forall₂_map_left_iff, List.forall₂_map_right_iff]
  simp only [fileChar_eq_iff]

theorem toList_routeFileStem (path : String) :
    (routeFileStem path).toList = (fileText path).map fileChar := by
  unfold routeFileStem fileText
  cases path.toList.dropWhile (· = '/') with
  | nil => decide
  | cons c cs => exact String.toList_ofList

/-- Two routes have one file exactly when their paths say so. -/
theorem routeFileStem_eq_iff {p q : String} :
    routeFileStem p = routeFileStem q ↔ SharesFile p q := by
  rw [← String.toList_inj, toList_routeFileStem, toList_routeFileStem, map_fileChar_eq_iff,
    SharesFile]

theorem slash_not_mem_routeFileStem (path : String) : '/' ∉ (routeFileStem path).toList := by
  rw [toList_routeFileStem]
  intro h
  obtain ⟨c, -, hc⟩ := List.mem_map.1 h
  exact slash_ne_fileChar c hc

/-- No other text than its own becomes the name of the file of the schemas. -/
theorem routeFileStem_eq_schemas_iff {path : String} :
    routeFileStem path = "schemas" ↔ fileText path = "schemas".toList := by
  rw [← String.toList_inj, toList_routeFileStem]
  constructor
  · intro h
    have hfixed : ∀ c ∈ fileText path, fileChar c = c := by
      intro c hc
      have hmem : fileChar c ∈ "schemas".toList := h ▸ List.mem_map_of_mem hc
      exact fileChar_eq_self fun hreplaced => absurd hmem (by
        rcases List.mem_cons.1 hreplaced with hdot | hreplaced
        · rw [hdot]
          decide
        · rw [List.mem_singleton.1 hreplaced]
          decide)
    rw [← h, List.map_congr_left hfixed, List.map_id']
  · intro h
    rw [h]
    decide

/-! ## Names of all files -/

theorem render_paths_fileBased (api : Api) {options : Options} (hmode : options.mode = .fileBased) :
    (render api options).map (·.path) =
      "schemas.ts" :: (keys api.routes).map fun path => routeFileStem path ++ ".ts" := by
  rw [render, hmode, keys]
  simp only [List.map_cons, List.map_map]
  rfl

/-- The files of an API have names of their own. -/
structure Api.KeepsFiles (api : Api) : Prop where
  schemas : ∀ path ∈ keys api.routes, fileText path ≠ "schemas".toList
  routes : ∀ p ∈ keys api.routes, ∀ q ∈ keys api.routes, SharesFile p q → p = q

theorem nodup_render_iff {api : Api} (hkeys : (keys api.routes).Nodup) (options : Options) :
    ((render api options).map (·.path)).Nodup ↔
      options.mode = .singleFile ∨ api.KeepsFiles := by
  cases hmode : options.mode with
  | singleFile =>
      refine iff_of_true ?_ (.inl rfl)
      rw [render, hmode]
      exact List.nodup_singleton _
  | fileBased =>
      have hschemas : "schemas.ts" ∉ (keys api.routes).map (fun path => routeFileStem path ++ ".ts")
          ↔ ∀ path ∈ keys api.routes, fileText path ≠ "schemas".toList := by
        have hname : "schemas.ts" = "schemas" ++ ".ts" := by decide
        simp only [List.mem_map, not_exists, not_and, hname, String.append_left_inj,
          routeFileStem_eq_schemas_iff, ne_eq]
      rw [render_paths_fileBased api hmode, List.nodup_cons, hschemas,
        List.nodup_map_iff_inj_on hkeys]
      simp only [String.append_left_inj, routeFileStem_eq_iff, reduceCtorEq, false_or]
      exact ⟨fun h => ⟨h.1, h.2⟩, fun h => ⟨h.schemas, h.routes⟩⟩

/-- No name starts with a slash. -/
theorem slash_not_mem_path {api : Api} {options : Options} {file : SourceFile}
    (h : file ∈ render api options) : '/' ∉ file.path.toList := by
  rw [render] at h
  split at h
  · rw [List.mem_singleton.1 h]
    exact (by decide : '/' ∉ "endpoints.ts".toList)
  · rcases List.mem_cons.1 h with rfl | h
    · exact (by decide : '/' ∉ "schemas.ts".toList)
    · obtain ⟨⟨path, es⟩, -, rfl⟩ := List.mem_map.1 h
      show '/' ∉ (routeFileStem path ++ ".ts").toList
      rw [String.toList_append, List.mem_append, not_or]
      exact ⟨slash_not_mem_routeFileStem path, by decide⟩

/-! ## Writing them -/

/-- What stands before a name in the path of a file below a directory. -/
def below (dir : String) : String :=
  if dir = "" then "" else if dir.toList.getLast? = some '/' then dir else dir ++ "/"

theorem joinPath_eq {name : String} (h : '/' ∉ name.toList) (dir : String) :
    joinPath dir name = below dir ++ name := by
  have hrelative : Text.startsWith "/" name = false := by
    cases hcs : name.toList with
    | nil => simp [Text.startsWith, hcs, Text.afterPrefix?]
    | cons c cs =>
        have hc : '/' ≠ c := fun hc => h (by rw [hcs, hc]; exact List.mem_cons_self)
        simp [Text.startsWith, hcs, Text.afterPrefix?, hc]
  rw [joinPath, below, hrelative]
  split
  · next hdir =>
      rw [Bool.false_or, decide_eq_true_eq] at hdir
      rw [if_pos hdir, String.empty_append]
  · next hdir =>
      rw [Bool.false_or, decide_eq_true_eq] at hdir
      rw [if_neg hdir]
      split <;> rfl

theorem nodup_pathsBelow_iff {dir : String} {files : List SourceFile}
    (h : ∀ file ∈ files, '/' ∉ file.path.toList) :
    (pathsBelow dir files).Nodup ↔ (files.map (·.path)).Nodup := by
  have hpaths : pathsBelow dir files = (files.map (·.path)).map (below dir ++ ·) := by
    rw [pathsBelow, List.map_map]
    exact List.map_congr_left fun file hfile => joinPath_eq (h file hfile) dir
  have hinj : Function.Injective (below dir ++ · : String → String) := by
    intro a b hab
    exact (String.append_right_inj _).1 hab
  rw [hpaths, List.nodup_map_iff hinj]

namespace Writer

/-- The paths that a writer is done with are those of all files. -/
theorem writeApi_ok {σ : Type} (w : Writer σ) {s : σ} {api : Api} {options : Options}
    {written : List String} (h : (w.writeApi s api options).2 = .ok written) :
    written = pathsBelow options.outDir (render api options) := by
  obtain ⟨calls, refusal, hcarried, hrun⟩ :=
    w.writeAll_carried options.outDir (render api options) s
  rw [writeApi_eq, hrun] at h
  cases hcarried with
  | upTo => cases h
  | out =>
      cases h
      exact writtenPaths_plannedCalls _ _

end Writer

/-- Files are written one after the other, up to the first call that is refused. -/
theorem writtenPaths_writeApi (rule : List WriterCall → WriterCall → Option Failure) (api : Api)
    (options : Options) :
    writtenPaths ((recorder rule).writeApi [] api options).1 <+:
        pathsBelow options.outDir (render api options) ∧
      ((∀ calls call, rule calls call = none) →
        writtenPaths ((recorder rule).writeApi [] api options).1 =
          pathsBelow options.outDir (render api options)) := by
  obtain ⟨calls, refusal, hcarried, hrun⟩ :=
    recorder_writeAll rule options.outDir (render api options)
  rw [Writer.writeApi_eq, hrun, ← writtenPaths_plannedCalls]
  refine ⟨hcarried.isPrefix.filterMap _, fun haccepts => ?_⟩
  cases hcarried with
  | out => rfl
  | upTo _ _ hrefused =>
      rw [haccepts] at hrefused
      cases hrefused

/-! ## The theorem -/

theorem nodup_keys_routes {v : Json} {api : Api} (h : Api.ofJson v = .ok api) :
    (keys api.routes).Nodup := by
  obtain ⟨doc, rfl⟩ := Api.exists_document h
  exact Ordered.nodup_keys_ofWrites _

/-- **When files are kept.**  The files of an API that a document describes have different paths
exactly when everything is in one file, or when no path shares its file with another and none has
the name of the file of the schemas.  This is also exactly when no run writes one file twice,
whatever calls are refused; and then no writer is done with one path twice. -/
theorem files_kept_iff {v : Json} {api : Api} (h : Api.ofJson v = .ok api) (options : Options) :
    (((render api options).map (·.path)).Nodup ↔
      options.mode = .singleFile ∨ api.KeepsFiles) ∧
    (((render api options).map (·.path)).Nodup ↔
      ∀ rule, (writtenPaths ((recorder rule).writeApi [] api options).1).Nodup) ∧
    (((render api options).map (·.path)).Nodup →
      ∀ (σ : Type) (w : Writer σ) (s : σ) (written : List String),
        (w.writeApi s api options).2 = .ok written → written.Nodup) := by
  have hpaths : (pathsBelow options.outDir (render api options)).Nodup ↔
      ((render api options).map (·.path)).Nodup :=
    nodup_pathsBelow_iff fun _ => slash_not_mem_path
  refine ⟨nodup_render_iff (nodup_keys_routes h) options, ⟨?_, ?_⟩, ?_⟩
  · intro hnodup rule
    exact (hpaths.2 hnodup).sublist (writtenPaths_writeApi rule api options).1.sublist
  · intro hruns
    have hall := (writtenPaths_writeApi (fun _ _ => none) api options).2 fun _ _ => rfl
    exact hpaths.1 (hall ▸ hruns _)
  · intro hnodup σ w s written hwritten
    rw [w.writeApi_ok hwritten]
    exact hpaths.2 hnodup

/-! ### Documents of empty paths -/

/-- A document with paths and nothing under them. -/
def pathsTree (paths : List String) : Json :=
  .object [
    ("openapi", .string "3.0.0"),
    ("paths", .object (paths.map fun path => (path, .object [])))]

theorem two_files_kept :
    ∃ api, Api.ofJson (pathsTree ["/users/{id}", "/"]) = .ok api ∧
      (render api { mode := .fileBased }).map (·.path) =
        ["schemas.ts", "users._id_.ts", "index.ts"] ∧
      api.KeepsFiles ∧
      ∀ rule, (writtenPaths ((recorder rule).writeApi [] api { mode := .fileBased }).1).Nodup := by
  have h : Api.ofJson (pathsTree ["/users/{id}", "/"]) =
      .ok { routes := [("/users/[id]", []), ("/", [])] } := rfl
  have hkept := files_kept_iff h { mode := .fileBased }
  have hpaths : (render { routes := [("/users/[id]", []), ("/", [])] } { mode := .fileBased }).map
      (·.path) = ["schemas.ts", "users._id_.ts", "index.ts"] := by decide
  rw [hpaths] at hkept
  exact ⟨_, h, hpaths, (hkept.1.1 (by decide)).resolve_left nofun, hkept.2.1.1 (by decide)⟩

/-- Two paths that differ in one character are written to one file. -/
theorem one_file_lost :
    ∃ api, Api.ofJson (pathsTree ["/a/b", "/a.b"]) = .ok api ∧
      (render api { mode := .fileBased }).map (·.path) = ["schemas.ts", "a.b.ts", "a.b.ts"] ∧
      ¬ ((render api { mode := .fileBased }).map (·.path)).Nodup ∧
      writtenPaths ((recorder fun _ _ => none).writeApi [] api { mode := .fileBased }).1 =
        ["src/routes/schemas.ts", "src/routes/a.b.ts", "src/routes/a.b.ts"] := by
  have h : Api.ofJson (pathsTree ["/a/b", "/a.b"]) =
      .ok { routes := [("/a/b", []), ("/a.b", [])] } := rfl
  have hpaths : (render { routes := [("/a/b", []), ("/a.b", [])] } { mode := .fileBased }).map
      (·.path) = ["schemas.ts", "a.b.ts", "a.b.ts"] := by decide
  refine ⟨_, h, hpaths, ?_, ?_⟩
  · rw [hpaths]
    decide
  · decide

end EndpointBindings
