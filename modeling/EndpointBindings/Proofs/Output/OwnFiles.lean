import EndpointBindings.CommandLine.Run
import EndpointBindings.Proofs.Disk.Frame
import EndpointBindings.Proofs.Document.Acceptance
import EndpointBindings.Proofs.Output.FileNames

/-!
# Only own files are touched

The names of generated files are made from the paths of a document, and a document may have any
text as a path.  The names hold no slash and end in `.ts` (`OwnName`), so that joined to the output
directory a name is the last part of a path (`Path.names_joinPath`), and followed on a disk it leads
to a file right below the directory that the output directory leads to (`locate_joinPath`).

| | leaves alone |
| :-- | :-- |
| one call of the writer | all but one own file and new directories (`call_touches`) |
| the calls of a run | all but own files and new directories (`after_touches`) |
| an import whose document is not loaded | everything (`run_of_not_loaded`) |

A disk here is a tree: no file is reached by two locations.
-/

namespace EndpointBindings

/-! ## Own names -/

/-- The name of a generated file: it ends in `.ts` and is one part of a path, none of the two that
are dots. -/
structure OwnName (name : String) : Prop where
  ending : ".ts".toList <:+ name.toList
  slash : '/' ∉ name.toList
  ne_dot : name ≠ "."
  ne_dots : name ≠ ".."

theorem OwnName.of_ending {name : String} (hending : ".ts".toList <:+ name.toList)
    (hslash : '/' ∉ name.toList) : OwnName name where
  ending := hending
  slash := hslash
  ne_dot := by
    rintro rfl
    exact absurd hending (by decide)
  ne_dots := by
    rintro rfl
    exact absurd hending (by decide)

theorem OwnName.ne_empty {name : String} (h : OwnName name) : name ≠ "" := by
  rintro rfl
  exact absurd h.ending (by decide)

/-- Every generated file has an own name, whatever the paths of its API are. -/
theorem ownName_of_mem_render {api : Api} {options : Options} {file : SourceFile}
    (h : file ∈ render api options) : OwnName file.path := by
  refine .of_ending ?_ (slash_not_mem_path h)
  rw [render] at h
  split at h
  · rw [List.mem_singleton.1 h]
    exact (by decide : ".ts".toList <:+ "endpoints.ts".toList)
  · rcases List.mem_cons.1 h with rfl | h
    · exact (by decide : ".ts".toList <:+ "schemas.ts".toList)
    · obtain ⟨⟨path, es⟩, -, rfl⟩ := List.mem_map.1 h
      exact ⟨(routeFileStem path).toList, String.toList_append.symm⟩

/-! ## Names below a directory -/

theorem Text.pieces_append_sep (sep : Char) (before after : List Char) :
    Text.pieces sep (before ++ sep :: after) = Text.pieces sep before ++ Text.pieces sep after := by
  induction before with
  | nil => simp [Text.pieces]
  | cons c before ih =>
      rw [List.cons_append, Text.pieces, Text.pieces, ih]
      split
      · rfl
      · cases h : Text.pieces sep before with
        | nil => exact absurd h (Text.pieces_ne_nil sep before)
        | cons p ps => rfl

namespace Path

theorem names_append_slash (before after : String) :
    names (before ++ "/" ++ after) = names before ++ names after := by
  have hlist : (before ++ "/" ++ after).toList = before.toList ++ '/' :: after.toList := by simp
  simp only [names, Text.split, hlist, Text.pieces_append_sep, List.map_append,
    List.filter_append]

theorem names_of_not_mem {name : String} (hslash : '/' ∉ name.toList) (hne : name ≠ "") :
    names name = [name] := by
  rw [names, Text.split, Text.pieces_of_not_mem hslash, List.map_singleton, String.ofList_toList,
    List.filter_cons_of_pos (by simpa using hne), List.filter_nil]

/-- A name is the last part of the path that joins it to a directory. -/
theorem names_joinPath {name : String} (h : OwnName name) (dir : String) :
    names (joinPath dir name) = names dir ++ [name] := by
  rw [joinPath_eq h.slash, below, ← names_of_not_mem h.slash h.ne_empty]
  split
  · next hdir =>
      rw [hdir, String.empty_append]
      rfl
  · split
    · next hlast =>
        obtain ⟨before, hbefore⟩ := List.getLast?_eq_some_iff.1 hlast
        have hdir : dir = String.ofList before ++ "/" ++ "" := by
          rw [← String.toList_inj, hbefore]
          simp
        have hjoined : dir ++ name = String.ofList before ++ "/" ++ name := by
          rw [hdir, String.append_empty]
        rw [hjoined, hdir, names_append_slash, names_append_slash, List.append_assoc]
        rfl
    · exact names_append_slash dir name

theorem isAbsolute_joinPath {name : String} (h : OwnName name) (dir : String) :
    isAbsolute (joinPath dir name) = isAbsolute dir := by
  obtain ⟨rest, hrest⟩ : ∃ rest, below dir = dir ++ rest := by
    rw [below]
    split
    · next hdir => exact ⟨"", by rw [hdir, String.append_empty]⟩
    · split
      · exact ⟨"", String.append_empty.symm⟩
      · exact ⟨"/", rfl⟩
  rw [Bool.eq_iff_iff, isAbsolute, isAbsolute, Text.startsWith_iff, Text.startsWith_iff,
    joinPath_eq h.slash]
  cases hdir : dir.toList with
  | nil =>
      have hempty : below dir = "" := by rw [below, if_pos (String.toList_eq_nil_iff.1 hdir)]
      rw [hempty, String.empty_append]
      refine iff_of_false (fun hslash => h.slash ?_) (by decide)
      exact hslash.subset List.mem_cons_self
  | cons c cs =>
      rw [hrest, String.toList_append, String.toList_append, hdir]
      exact List.cons_prefix_cons.trans ((and_congr_right fun _ => iff_of_true List.nil_prefix
        List.nil_prefix).trans List.cons_prefix_cons.symm)

end Path

/-! ## Own files -/

namespace Disk

/-- The location of one of the files: right below the directory that a path leads to, under the
file's name. -/
def OwnFile (d : Disk) (dir : String) (files : List SourceFile) (location : Location) : Prop :=
  ∃ parent, d.follow dir = .ok parent ∧ ∃ file ∈ files, location = parent ++ [file.path]

variable {d d' : Disk} {dir : String} {files : List SourceFile} {location : Location}

theorem OwnFile.mono {own : Location → Prop} (h : d.OwnFile dir files location)
    (htouches : d.TouchesOnly d' own) : d'.OwnFile dir files location := by
  obtain ⟨parent, hparent, hfile⟩ := h
  exact ⟨parent, htouches.follow_mono hparent, hfile⟩

/-- An own name below a directory is looked for where the directory is. -/
theorem follow_joinPath {name : String} (hname : OwnName name) :
    d.follow (joinPath dir name) = .ok location ↔
      ∃ parent, d.follow dir = .ok parent ∧ d.step parent name = .ok location := by
  rw [follow, Path.names_joinPath hname, Path.isAbsolute_joinPath hname, List.foldlM_append,
    bind_eq_ok]
  simp only [List.foldlM_cons, List.foldlM_nil, bind_pure]
  rfl

/-- What an own name below a directory leads to lies right below the directory. -/
theorem locate_joinPath {name : String} (hname : OwnName name)
    (h : d.locate (joinPath dir name) = .ok location) :
    ∃ parent, d.follow dir = .ok parent ∧ location = parent ++ [name] := by
  obtain ⟨parent, hparent, hstep⟩ := (follow_joinPath hname).1 (follow_of_locate h)
  exact ⟨parent, hparent, step_eq_append hstep hname.ne_dot hname.ne_dots⟩

/-! ## Calls -/

/-- The writer of a disk leaves what writing a file gives, and the disk as it was where that
fails. -/
theorem writer_writeFile (d : Disk) (path contents : String) :
    d.writeText path contents = .ok (writer.writeFile d path contents).1 ∨
      (writer.writeFile d path contents).1 = d := by
  cases hwrite : d.writeText path contents with
  | ok d' => exact .inl (by simp only [writer, hwrite])
  | error fault => exact .inr (by simp only [writer, hwrite])

/-- One call of a plan touches an own file at most. -/
theorem call_touches (hnames : ∀ file ∈ files, OwnName file.path)
    {call : WriterCall} (hcall : call ∈ plannedCalls dir files) (d : Disk) :
    d.TouchesOnly (writer.call d call).1 ((writer.call d call).1.OwnFile dir files) := by
  rcases List.mem_cons.1 hcall with rfl | hcall
  · exact makeDirAll_touches _ d dir
  · obtain ⟨file, hfile, rfl⟩ := List.mem_map.1 hcall
    rw [writeCall, Writer.call]
    rcases d.writer_writeFile (joinPath dir file.path) file.contents with hwritten | hkept
    · obtain ⟨location, hlocate, hfree, hput⟩ := writeText_eq_ok hwritten
      rw [hput]
      have htouches := touchesOnly_put_text hfree file.contents
      refine htouches.mono fun other hother => ?_
      rw [hother]
      obtain ⟨parent, hparent, hlocation⟩ := locate_joinPath (hnames file hfile) hlocate
      exact ⟨parent, htouches.follow_mono hparent, file, hfile, hlocation⟩
    · rw [hkept]
      exact .refl d _

/-- **The calls of a plan touch own files only**, by induction on the calls. -/
theorem after_touches (hnames : ∀ file ∈ files, OwnName file.path) {calls : List WriterCall}
    (hcalls : ∀ call ∈ calls, call ∈ plannedCalls dir files) (d : Disk) :
    d.TouchesOnly (writer.after d calls) ((writer.after d calls).OwnFile dir files) := by
  induction calls generalizing d with
  | nil => exact .refl d _
  | cons call calls ih =>
      obtain ⟨hcall, hrest⟩ := List.forall_mem_cons.1 hcalls
      have hfirst := call_touches hnames hcall d
      have hothers := ih hrest (writer.call d call).1
      exact (hfirst.mono fun _ h => h.mono hothers).trans hothers

/-- What a run calls is in its plan, under any rule. -/
theorem mem_plannedCalls {rule : List WriterCall → WriterCall → Option Failure} {api : Api}
    {options : Options} {call : WriterCall}
    (h : call ∈ ((recorder rule).writeApi [] api options).1) :
    call ∈ plannedCalls options.outDir (render api options) := by
  obtain ⟨calls, refusal, hcarried, hrun⟩ :=
    recorder_writeAll rule options.outDir (render api options)
  rw [Writer.writeApi_eq, hrun] at h
  exact hcarried.isPrefix.subset h

/-- The calls that generating makes on a disk. -/
def generateCalls (d : Disk) (api : Api) (options : Options) : List WriterCall :=
  ((recorder (writer.rule d)).writeApi [] api options).1

theorem generate_eq (d : Disk) (api : Api) (options : Options) :
    (d.generate api options).1 = writer.after d (d.generateCalls api options) := by
  obtain ⟨calls, refusal, hcarried, hrun⟩ :=
    writer.writeAll_carried options.outDir (render api options) d
  obtain ⟨calls', refusal', hcarried', hrun'⟩ :=
    recorder_writeAll (writer.rule d) options.outDir (render api options)
  rw [generateCalls, generate, Writer.writeApi_eq, Writer.writeApi_eq, hrun, hrun',
    (hcarried.unique hcarried').1]

/-- Generating touches own files only. -/
theorem generate_touches (d : Disk) (api : Api) (options : Options) :
    d.TouchesOnly (d.generate api options).1
      ((d.generate api options).1.OwnFile options.outDir (render api options)) := by
  rw [generate_eq]
  exact after_touches (fun _ => ownName_of_mem_render) (fun _ => mem_plannedCalls) d

/-! ## Loading -/

/-- No API is loaded from a file: it cannot be read, its text is no document, or the document's
version is not one of those that are read. -/
inductive Unloadable (d : Disk) (file : String) : Prop
  | unreadable {fault : FileFault} (h : d.readText file = .error fault)
  | malformed {text : String} {failure : Failure} (htext : d.readText file = .ok text)
      (h : readDocument (.ofPath file) text = .error failure)
  | unsupported {text : String} {v : Json} (htext : d.readText file = .ok text)
      (hdocument : readDocument (.ofPath file) text = .ok v) (h : ¬ v.Supported)

theorem unloadable_iff {file : String} :
    d.Unloadable file ↔ ∃ failure, d.loadApi file = .error failure := by
  constructor
  · rintro (h | ⟨htext, h⟩ | ⟨htext, hdocument, h⟩)
    · rw [loadApi, load, h]
      exact ⟨_, rfl⟩
    · rw [loadApi, load, htext]
      dsimp only
      rw [h]
      exact ⟨_, rfl⟩
    · rw [loadApi, load, htext]
      dsimp only
      rw [hdocument]
      obtain ⟨failure, hfailure, -⟩ := (accepted_iff_supported _).2.2.1.2 h
      exact ⟨failure, hfailure⟩
  · rintro ⟨failure, h⟩
    rw [loadApi, load] at h
    cases htext : d.readText file with
    | error fault => exact .unreadable htext
    | ok text =>
        rw [htext] at h
        cases hdocument : readDocument (.ofPath file) text with
        | error failure => exact .malformed htext hdocument
        | ok v =>
            refine .unsupported htext hdocument fun hsupported => ?_
            obtain ⟨api, hapi⟩ := (Api.exists_ofJson_iff v).2 hsupported
            have hload : (Except.ok v >>= Api.ofJson : Except Failure Api) = .error failure :=
              hdocument ▸ h
            cases hapi.symm.trans hload

end Disk

namespace CommandLine

/-- An import of a file on a disk: its report, and the disk that it leaves. -/
def importOnDisk (d : Disk) (file : String) (options : Options) (verbose : Bool) : Report × Disk :=
  (Invocation.importDocument file options verbose).run diskHost d

variable {d : Disk} {file : String} {options : Options} {verbose : Bool}

theorem run_of_not_loaded {failure : Failure} (h : d.loadApi file = .error failure) :
    importOnDisk d file options verbose =
      (.failure (unlines (importOpening file options verbose)) ("Failed to load " ++ file), d) := by
  simp only [importOnDisk, Invocation.run, runImport, diskHost, bind, StateT.bind, h]
  rfl

theorem run_of_loaded {api : Api} (h : d.loadApi file = .ok api) :
    (importOnDisk d file options verbose).2 = (d.generate api options).1 := by
  simp only [importOnDisk, Invocation.run, runImport, diskHost, bind, StateT.bind, h]
  cases (d.generate api options).2 <;> rfl

/-! ## The theorem -/

/-- Every path that a run writes to joins an own name to the output directory. -/
theorem exists_ownName_of_mem_calls {rule : List WriterCall → WriterCall → Option Failure}
    {api : Api} {path contents : String}
    (h : .writeFile path contents ∈ ((recorder rule).writeApi [] api options).1) :
    ∃ name, OwnName name ∧ path = joinPath options.outDir name ∧
      Path.names path = Path.names options.outDir ++ [name] := by
  rcases List.mem_cons.1 (Disk.mem_plannedCalls h) with h | h
  · cases h
  · obtain ⟨file, hfile, he⟩ := List.mem_map.1 h
    cases he
    have hname := ownName_of_mem_render hfile
    exact ⟨file.path, hname, rfl, Path.names_joinPath hname _⟩

/-- **An import touches its own files only.**  Whatever a document has as paths, the files of its
API have own names, and every path that is written to joins one to the output directory, so that it
has one part more than the directory.  An import that loads an API leaves a disk that differs from
the one before in these files, which lie right below the output directory, and in new directories;
every other file has its contents.  Where the document cannot be read or parsed or its version is not
supported, the disk is what it was and the exit code is 1, and there is no other way not to load
it. -/
theorem import_touches_own_files (d : Disk) (file : String) (options : Options) (verbose : Bool) :
    (∀ rule api path contents,
      .writeFile path contents ∈ ((recorder rule).writeApi [] api options).1 →
        ∃ name, OwnName name ∧ path = joinPath options.outDir name ∧
          Path.names path = Path.names options.outDir ++ [name]) ∧
    (∀ api, d.loadApi file = .ok api →
      (∀ f ∈ render api options, OwnName f.path) ∧
      (importOnDisk d file options verbose).2 =
        Disk.writer.after d (d.generateCalls api options) ∧
      d.TouchesOnly (importOnDisk d file options verbose).2
        ((importOnDisk d file options verbose).2.OwnFile options.outDir (render api options)) ∧
      ∀ location item, d.item? location = some item →
        ¬ (importOnDisk d file options verbose).2.OwnFile options.outDir (render api options)
          location →
        (importOnDisk d file options verbose).2.item? location = some item) ∧
    (d.Unloadable file → (importOnDisk d file options verbose).2 = d ∧
      (importOnDisk d file options verbose).1.exitCode = 1) ∧
    (d.Unloadable file ∨ ∃ api, d.loadApi file = .ok api) ∧
    ∀ environment args, read environment args = .importDocument file options verbose →
      runOnDisk environment args d = importOnDisk d file options verbose := by
  refine ⟨fun _ _ _ _ => exists_ownName_of_mem_calls, fun api hload => ?_, fun h => ?_, ?_,
    fun _ _ hread => ?_⟩
  · rw [run_of_loaded hload]
    have htouches := d.generate_touches api options
    exact ⟨fun _ => ownName_of_mem_render, Disk.generate_eq d api options, htouches,
      fun location item hitem hown => htouches.file hown hitem⟩
  · obtain ⟨failure, hload⟩ := Disk.unloadable_iff.1 h
    rw [run_of_not_loaded hload]
    exact ⟨rfl, rfl⟩
  · cases hload : d.loadApi file with
    | error failure => exact .inl (Disk.unloadable_iff.2 ⟨failure, hload⟩)
    | ok api => exact .inr ⟨api, rfl⟩
  · rw [runOnDisk, hread, importOnDisk]

/-! ### A disk with paths that go up -/

/-- The text of a document whose paths look like ways out of a directory. -/
def wanderingText : String :=
  "\x7b\"openapi\":\"3.0\",\"paths\":\x7b\"/../../x\":\x7b\x7d,\"//etc\":\x7b\x7d\x7d\x7d"

/-- A home with two documents, one of an unsupported version, and a file of the same name as one
that is generated. -/
def wanderingDisk : Disk where
  items := [
    (["x.ts"], .text "kept"),
    (["home"], .directory),
    (["home", "api.json"], .text wanderingText),
    (["home", "old.json"], .text "\x7b\"openapi\":\"1.0\"\x7d")]
  workingDir := ["home"]

def wanderingOptions : Options := { outDir? := some "../home/out", mode := .fileBased }

/-- The file that a way out became is an own file, and the one at its end is kept. -/
theorem wandering_import :
    (∃ api, wanderingDisk.loadApi "api.json" = .ok api ∧
      (importOnDisk wanderingDisk "api.json" wanderingOptions false).2.OwnFile "../home/out"
        (render api wanderingOptions) ["home", "out", "......x.ts"] ∧
      (importOnDisk wanderingDisk "api.json" wanderingOptions false).2.item? ["x.ts"] =
        some (.text "kept")) ∧
    wanderingDisk.Unloadable "old.json" ∧
    (importOnDisk wanderingDisk "old.json" wanderingOptions false).2 = wanderingDisk ∧
    (importOnDisk wanderingDisk "old.json" wanderingOptions false).1.exitCode = 1 := by
  have hrun : (wanderingDisk.loadApi "api.json").isOk = true ∧
      (importOnDisk wanderingDisk "api.json" wanderingOptions false).2.item?
        ["home", "out", "......x.ts"] ∉ [none, some .directory] ∧
      (importOnDisk wanderingDisk "api.json" wanderingOptions false).2.follow "../home/out" =
        .ok ["home", "out"] := by decide +kernel
  have hrefused : (wanderingDisk.loadApi "old.json").isOk = false := by decide +kernel
  obtain ⟨hloads, hwritten, hfollow⟩ := hrun
  obtain ⟨-, hloaded, -⟩ :=
    import_touches_own_files wanderingDisk "api.json" wanderingOptions false
  obtain ⟨-, -, hnot, hcases, -⟩ :=
    import_touches_own_files wanderingDisk "old.json" wanderingOptions false
  constructor
  · cases hload : wanderingDisk.loadApi "api.json" with
    | error failure =>
        rw [hload] at hloads
        cases hloads
    | ok api =>
        obtain ⟨-, -, htouches, hkept⟩ := hloaded api hload
        refine ⟨api, rfl, ?_, hkept ["x.ts"] _ rfl ?_⟩
        · by_contra hown
          rcases htouches.others _ hown with hsame | ⟨-, hmade⟩
          · have hbefore : wanderingDisk.item? ["home", "out", "......x.ts"] = none := by decide
            rw [hsame, hbefore] at hwritten
            exact hwritten List.mem_cons_self
          · rw [hmade] at hwritten
            exact hwritten (by simp)
        · rintro ⟨parent, hparent, f, -, hlocation⟩
          cases hfollow.symm.trans hparent
          exact absurd hlocation (by simp)
  · have hunloadable : wanderingDisk.Unloadable "old.json" := by
      refine hcases.resolve_right ?_
      rintro ⟨api, hload⟩
      rw [hload] at hrefused
      cases hrefused
    exact ⟨hunloadable, hnot hunloadable⟩

end CommandLine

end EndpointBindings
