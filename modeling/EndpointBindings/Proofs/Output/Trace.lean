import EndpointBindings.Output.Writer

/-!
# The calls of a run

What a run asks of its writer is known before the first call: make the output directory, then write
the rendered files in order (`plannedCalls`).  The writer decides how far the run comes.  It makes
the calls of the plan one after the other until one is refused, and the refusal is its outcome
(`Carried`, `outcomeOf`); a run whose files cannot be rendered makes none (`write_trace`).

A writer may have any state.  All that a run sees of it is which calls it refuses, told from the
calls before, so that a writer in a state is a rule (`Writer.rule`), and its state after a run is
told from the calls of the run (`Writer.after`).  The recorder of a rule is the writer whose state
is these calls.
-/

namespace EndpointBindings

/-! ## Plans -/

/-- The call that writes a file below a directory. -/
def writeCall (dir : String) (file : SourceFile) : WriterCall :=
  .writeFile (joinPath dir file.path) file.contents

/-- The calls that make a directory and write files below it. -/
def plannedCalls (dir : String) (files : List SourceFile) : List WriterCall :=
  .createDir dir :: files.map (writeCall dir)

/-- The paths of the files below a directory. -/
def pathsBelow (dir : String) (files : List SourceFile) : List String :=
  files.map fun file => joinPath dir file.path

/-- The files that calls write to, in order. -/
def writtenPaths (calls : List WriterCall) : List String :=
  calls.filterMap fun
    | .createDir _ => none
    | .writeFile path _ => some path

theorem writtenPaths_plannedCalls (dir : String) (files : List SourceFile) :
    writtenPaths (plannedCalls dir files) = pathsBelow dir files := by
  rw [plannedCalls, writtenPaths, List.filterMap_cons, List.filterMap_map, pathsBelow,
    ← List.filterMap_eq_map]
  rfl

/-! ## How far a plan is carried out -/

section Rules

variable {rule : List WriterCall → WriterCall → Option Failure}

/-- A rule refuses no call of a plan. -/
def Accepts (rule : List WriterCall → WriterCall → Option Failure) (plan : List WriterCall) :
    Prop :=
  ∀ before call after, plan = before ++ call :: after → rule before call = none

/-- The calls of a plan that are made under a rule, and the failure of the last one if it is
refused: the whole plan where all is accepted, and else the plan up to the first refusal. -/
inductive Carried (rule : List WriterCall → WriterCall → Option Failure)
    (plan : List WriterCall) : List WriterCall → Option Failure → Prop
  | out (haccepts : Accepts rule plan) : Carried rule plan plan none
  | upTo {before after : List WriterCall} {call : WriterCall} {failure : Failure}
      (hplan : plan = before ++ call :: after) (haccepts : Accepts rule before)
      (hrefused : rule before call = some failure) :
      Carried rule plan (before ++ [call]) (some failure)

theorem accepts_nil : Accepts rule [] := by
  intro before call after h
  exact absurd h.symm (List.append_ne_nil_of_right_ne_nil before (List.cons_ne_nil call after))

/-- Accepting a plan is accepting its first call, and after that call the others. -/
theorem accepts_cons_iff {call : WriterCall} {plan : List WriterCall} :
    Accepts rule (call :: plan) ↔
      rule [] call = none ∧ Accepts (fun calls => rule (call :: calls)) plan := by
  constructor
  · intro h
    refine ⟨h [] call plan rfl, fun before call' after hplan => ?_⟩
    exact h (call :: before) call' after (congrArg (call :: ·) hplan)
  · rintro ⟨hcall, hplan⟩ before call' after h
    cases before with
    | nil =>
        cases h
        exact hcall
    | cons _ before =>
        cases h
        exact hplan before call' after rfl

/-- A plan is not carried out beyond a first call that is refused. -/
theorem Carried.refused {call : WriterCall} {failure : Failure} (h : rule [] call = some failure)
    (plan : List WriterCall) : Carried rule (call :: plan) [call] (some failure) :=
  have hplan : call :: plan = [] ++ call :: plan := rfl
  .upTo hplan accepts_nil h

/-- Behind a first call that is accepted, a plan is carried out as far as the others are. -/
theorem Carried.cons {call : WriterCall} {plan calls : List WriterCall} {refusal : Option Failure}
    (hcall : rule [] call = none)
    (h : Carried (fun calls => rule (call :: calls)) plan calls refusal) :
    Carried rule (call :: plan) (call :: calls) refusal := by
  cases h with
  | out haccepts => exact .out (accepts_cons_iff.2 ⟨hcall, haccepts⟩)
  | upTo hplan haccepts hrefused =>
      exact .upTo (congrArg (call :: ·) hplan) (accepts_cons_iff.2 ⟨hcall, haccepts⟩) hrefused

/-- The calls that are made are the first of the plan. -/
theorem Carried.isPrefix {plan calls : List WriterCall} {refusal : Option Failure}
    (h : Carried rule plan calls refusal) : calls <+: plan := by
  cases h with
  | out => exact List.prefix_refl plan
  | @upTo before after call _ hplan _ _ =>
      exact ⟨after, by rw [hplan, List.append_assoc, List.singleton_append]⟩

/-- A call that is refused comes behind all calls that are accepted. -/
theorem Accepts.length_le {before after before' after' : List WriterCall} {call call' : WriterCall}
    {failure : Failure} (haccepts : Accepts rule before')
    (hrefused : rule before call = some failure)
    (h : before ++ call :: after = before' ++ call' :: after') :
    before'.length ≤ before.length := by
  rcases List.append_eq_append_iff.1 h with ⟨rest, rfl, hrest⟩ | ⟨rest, rfl, -⟩
  · cases rest with
    | nil => exact Nat.le_of_eq (congrArg List.length (List.append_nil before))
    | cons first rest =>
        cases hrest
        rw [haccepts before call rest rfl] at hrefused
        cases hrefused
  · rw [List.length_append]
    exact Nat.le_add_right _ _

/-- A plan is carried out in one way under a rule. -/
theorem Carried.unique {plan calls calls' : List WriterCall} {refusal refusal' : Option Failure}
    (h : Carried rule plan calls refusal) (h' : Carried rule plan calls' refusal') :
    calls = calls' ∧ refusal = refusal' := by
  cases h with
  | out haccepts =>
      cases h' with
      | out => exact ⟨rfl, rfl⟩
      | upTo hplan _ hrefused =>
          rw [haccepts _ _ _ hplan] at hrefused
          cases hrefused
  | upTo hplan haccepts hrefused =>
      cases h' with
      | out haccepts' =>
          rw [haccepts' _ _ _ hplan] at hrefused
          cases hrefused
      | upTo hplan' haccepts' hrefused' =>
          have h := hplan.symm.trans hplan'
          have hlength := Nat.le_antisymm (haccepts.length_le hrefused' h.symm)
            (haccepts'.length_le hrefused h)
          obtain ⟨rfl, hcall⟩ := List.append_inj h hlength
          cases hcall
          exact ⟨rfl, hrefused.symm.trans hrefused'⟩

end Rules

/-- The outcome of a run: the failure of a refused call, or else the paths written. -/
def outcomeOf (calls : List WriterCall) : Option Failure → Except Failure (List String)
  | none => .ok (writtenPaths calls)
  | some failure => .error failure

/-! ## Writers as rules -/

namespace Writer

variable {σ : Type} (w : Writer σ)

/-- What a writer does with a call. -/
def call (s : σ) : WriterCall → σ × Option Failure
  | .createDir dir => w.createDir s dir
  | .writeFile path contents => w.writeFile s path contents

/-- The state of a writer after some calls. -/
def after (s : σ) (calls : List WriterCall) : σ :=
  calls.foldl (fun s call => (w.call s call).1) s

/-- The calls that a writer refuses from a state on. -/
def rule (s : σ) (calls : List WriterCall) (call : WriterCall) : Option Failure :=
  (w.call (w.after s calls) call).2

variable {s : σ} {call : WriterCall}

/-- A first call that is refused is the only one.  Behind one that is accepted, a run goes on from
the state after it. -/
theorem carried_cons {plan : List WriterCall} {result : σ × Except Failure (List String)}
    (hrefused : ∀ s' failure, w.call s call = (s', some failure) → result = (s', .error failure))
    (haccepted : ∀ s', w.call s call = (s', none) → ∃ calls refusal,
      Carried (w.rule s') plan calls refusal ∧
        result = (w.after s' calls, outcomeOf (call :: calls) refusal)) :
    ∃ calls refusal, Carried (w.rule s) (call :: plan) calls refusal ∧
      result = (w.after s calls, outcomeOf calls refusal) := by
  cases hcall : w.call s call with
  | mk s' refusal =>
      have hafter : (w.call s call).1 = s' := congrArg Prod.fst hcall
      have hrule : w.rule s [] call = refusal := congrArg Prod.snd hcall
      cases refusal with
      | some failure =>
          refine ⟨[call], some failure, .refused hrule plan, ?_⟩
          rw [hrefused s' failure hcall, ← hafter]
          rfl
      | none =>
          obtain ⟨calls, refusal, hcarried, hresult⟩ := haccepted s' hcall
          rw [← hafter] at hcarried hresult
          exact ⟨call :: calls, refusal, .cons hrule hcarried, hresult⟩

/-- The files are written until a call is refused, by induction on the files. -/
theorem writeFiles_carried (dir : String) (files : List SourceFile) (s : σ) :
    ∃ calls refusal, Carried (w.rule s) (files.map (writeCall dir)) calls refusal ∧
      w.writeFiles dir s files = (w.after s calls, outcomeOf calls refusal) := by
  induction files generalizing s with
  | nil => exact ⟨[], none, .out accepts_nil, rfl⟩
  | cons file files ih =>
      rw [writeFiles, List.map_cons]
      refine w.carried_cons (fun s' failure h => ?_) fun s' h => ?_
      · have hwrite : w.writeFile s (joinPath dir file.path) file.contents = (s', some failure) := h
        rw [hwrite]
      · have hwrite : w.writeFile s (joinPath dir file.path) file.contents = (s', none) := h
        obtain ⟨calls, refusal, hrest, hrun⟩ := ih s'
        refine ⟨calls, refusal, hrest, ?_⟩
        rw [hwrite]
        dsimp only
        rw [hrun]
        cases refusal <;> rfl

/-- **A run carries out its plan**, whatever its writer is. -/
theorem writeAll_carried (dir : String) (files : List SourceFile) (s : σ) :
    ∃ calls refusal, Carried (w.rule s) (plannedCalls dir files) calls refusal ∧
      w.writeAll s dir files = (w.after s calls, outcomeOf calls refusal) := by
  rw [writeAll, plannedCalls]
  refine w.carried_cons (fun s' failure h => ?_) fun s' h => ?_
  · have hmade : w.createDir s dir = (s', some failure) := h
    rw [hmade]
  · have hmade : w.createDir s dir = (s', none) := h
    obtain ⟨calls, refusal, hrest, hrun⟩ := w.writeFiles_carried dir files s'
    refine ⟨calls, refusal, hrest, ?_⟩
    rw [hmade]
    dsimp only
    rw [hrun]
    cases refusal <;> rfl

end Writer

/-! ## Recorders -/

section Recorders

variable (rule : List WriterCall → WriterCall → Option Failure)

theorem recorder_call (calls : List WriterCall) (call : WriterCall) :
    (recorder rule).call calls call = (calls ++ [call], rule calls call) := by
  cases call <;> rfl

/-- A recorder's state is the calls that it has had. -/
theorem recorder_after (made calls : List WriterCall) :
    (recorder rule).after made calls = made ++ calls := by
  induction calls generalizing made with
  | nil => exact (List.append_nil made).symm
  | cons call calls ih =>
      rw [Writer.after, List.foldl_cons, recorder_call, ← Writer.after, ih, List.append_assoc,
        List.singleton_append]

theorem recorder_rule : (recorder rule).rule [] = rule := by
  funext calls call
  rw [Writer.rule, recorder_after, List.nil_append, recorder_call]

theorem recorder_writeAll (dir : String) (files : List SourceFile) :
    ∃ calls refusal, Carried rule (plannedCalls dir files) calls refusal ∧
      (recorder rule).writeAll [] dir files = (calls, outcomeOf calls refusal) := by
  obtain ⟨calls, refusal, hcarried, hrun⟩ := (recorder rule).writeAll_carried dir files []
  rw [recorder_rule] at hcarried
  rw [recorder_after, List.nil_append] at hrun
  exact ⟨calls, refusal, hcarried, hrun⟩

end Recorders

/-! ## The theorem -/

/-- **What a run calls.**  Take any engine that renders, any API and any options.  When a file
cannot be rendered, no writer is called and the run fails as the engine does.  When all are
rendered, the calls of a run under a rule are those of the plan up to and with the first one
refused, or all of them; the run fails as the refused call does, or else gives the paths written in
their order.  So it is with every writer, in whatever state it starts: it is a rule, and the state
it is left in is the one after these calls. -/
theorem write_trace (engine : Engine) (api : Api) (options : Options) :
    (∀ failure, renderWith engine api options = .error failure →
      ∀ (σ : Type) (w : Writer σ) (s : σ), w.writeWith engine s api options = (s, .error failure)) ∧
    ∀ files, renderWith engine api options = .ok files →
      (∀ rule, ∃ calls refusal, Carried rule (plannedCalls options.outDir files) calls refusal ∧
        (recorder rule).writeWith engine [] api options = (calls, outcomeOf calls refusal)) ∧
      ∀ (σ : Type) (w : Writer σ) (s : σ), ∃ calls refusal,
        Carried (w.rule s) (plannedCalls options.outDir files) calls refusal ∧
          w.writeWith engine s api options = (w.after s calls, outcomeOf calls refusal) := by
  constructor
  · intro failure hrender σ w s
    rw [Writer.writeWith, hrender]
  · intro files hrender
    constructor
    · intro rule
      rw [Writer.writeWith, hrender]
      exact recorder_writeAll rule options.outDir files
    · intro σ w s
      rw [Writer.writeWith, hrender]
      exact w.writeAll_carried options.outDir files s

/-! ### Two routes -/

/-- An API with two routes and nothing under them. -/
def twoRoutes : Api := { routes := [("/a", []), ("/b", [])] }

/-- Where the two routes are written to. -/
def twoRoutesOptions : Options := { outDir? := some "out", mode := .fileBased }

/-- An engine that has no template for one route. -/
def engineWithout (path : String) : Engine := fun file =>
  if file.path = path then .error (.refused "no template") else .ok file.contents

/-- A third call that is refused is the last one, and without the last file there is no call. -/
theorem twoRoutes_trace :
    (recorder (refuseAt 0)).writeWith (engineWithout "b.ts") [] twoRoutes twoRoutesOptions =
      ([], .error (.refused "no template")) ∧
    Carried (refuseAt 2) (plannedCalls "out" (render twoRoutes twoRoutesOptions))
      [.createDir "out", writeCall "out" (renderSchemas twoRoutes),
        writeCall "out" (renderRoute twoRoutes "./createApi" "/a" [])]
      (some (.refused "call 2 refused")) ∧
    ((recorder (refuseAt 2)).writeApi [] twoRoutes twoRoutesOptions).2 =
      .error (.refused "call 2 refused") := by
  have hmissing : renderWith (engineWithout "b.ts") twoRoutes twoRoutesOptions =
      .error (.refused "no template") := rfl
  have hrun : (recorder (refuseAt 2)).writeApi [] twoRoutes twoRoutesOptions =
      ([.createDir "out", writeCall "out" (renderSchemas twoRoutes),
        writeCall "out" (renderRoute twoRoutes "./createApi" "/a" [])],
        .error (.refused "call 2 refused")) := rfl
  obtain ⟨calls, refusal, hcarried, htrace⟩ :=
    ((write_trace .exact twoRoutes twoRoutesOptions).2 _ (renderWith_exact _ _)).1 (refuseAt 2)
  obtain ⟨rfl, houtcome⟩ := Prod.mk.inj (htrace.symm.trans hrun)
  refine ⟨(write_trace _ _ _).1 _ hmissing _ _ _, ?_, congrArg Prod.snd hrun⟩
  cases refusal with
  | none => cases houtcome
  | some failure =>
      cases houtcome
      exact hcarried

end EndpointBindings
