import ClassEngine.Proofs.Engine.Reporting

/-!
Fatal errors: symbols that cannot be bound and code that cannot be executed. They are recorded where
they come up, and the first one ends the call in the course of which that is, whatever lies between;
nothing is executed or handled on the way out. Main result: `fatal_errors_end_calls`.
-/

namespace ClassEngine

open Machine Exec Linking Resolution Interpreter Initialization

/-- What is done in the course of calls: instructions are executed, classes loaded and initialized,
handlers looked for, natives run and methods called. -/
inductive IsStage : {α : Type} → Exec α → Prop
  | instruction (byte : UInt8) : IsStage (Step.run byte)
  | load (d : Descriptor) : IsStage (classFor d)
  | initialization (d : Descriptor) : IsStage (initializeClass d)
  | search (pc : Int) (type : Descriptor) (handlers : List Handler) :
      IsStage (findHandler pc type handlers)
  | native (method : Method) (locals : Array Value) : IsStage (Native.call method locals)
  | call (method : Method) (args : List Value) : IsStage (invokeMethod method args)

section Calls

variable {α : Type} {ctx : Context}

theorem Safe.surfacing {x : Exec α} (h : Safe ctx x) : Surfacing ctx x :=
  SoundBy.surfaces h

variable [SoundContext ctx]

theorem IsStage.surfacing {x : Exec α} (h : IsStage x) : Surfacing ctx x := by
  cases h with
  | instruction byte => exact (soundBy_step byte).surfaces
  | load d => exact (safe_classFor d).surfacing
  | initialization d => exact SoundContext.initClass_surfaces d
  | search pc type handlers => exact (safe_findHandler pc type handlers).surfacing
  | native method locals => exact (safe_nativeCall method locals).surfacing
  | call method args => exact (sound_invokeMethod method args).surfaces

theorem IsCall.surfacing {call : Exec Value} (h : IsCall call) : Surfacing ctx call := by
  cases h with
  | named owner name descriptor args => exact (safe_invoke owner name descriptor args).surfacing
  | direct method args => exact (sound_invokeMethod method args).surfaces

/-- A fault in the body of a method comes up as an error of its code. -/
theorem execute_panic {f : Frame} {callers : List Frame} {fault : Fault} {m m' : Machine}
    (hframes : m.frames = f :: callers) (hloop : loop ctx.fuel ctx m = .error (.panic fault) m') :
    ∃ c, Interpreter.execute ctx m = .error (.malformed c) (m'.breakDown (.malformed c)) ∧
      c.method = f.method.text ∧ c.reason = fault.message ∧
      (c.underflow = true ↔ fault = .stackUnderflow) := by
  have hsound : SoundBy .activation ctx _ (loop ctx.fuel) _ := soundBy_loop ctx.fuel
  have hmeets := hsound.meets m
  rw [hloop] at hmeets
  have hafter := hmeets.1.frames
  rw [hframes] at hafter
  obtain ⟨g, hg, hrel⟩ := FrameRel.onTop_cons _ hafter
  have hread : (read : Exec Context) ctx m = .ok ctx m := rfl
  let cause := if fault = .stackUnderflow then some Cause.underflow else none
  have hblame : blame fault ctx m' =
      giveUp (.malformed ⟨g.method.text, g.opPc, fault.message, cause⟩) ctx m' := by
    rw [blame, bind_of_ok (currentFrame_ok hg)]
  refine ⟨⟨g.method.text, g.opPc, fault.message, cause⟩, ?_, ?_, rfl, ?_⟩
  · rw [Interpreter.execute, bind_of_ok hread, attempt_bind_error hloop]
    exact hblame
  · rw [FrameRel.method _ hrel]
  · by_cases hfault : fault = .stackUnderflow
    · simp [Malformed.underflow, cause, hfault]
    · simp [Malformed.underflow, cause, hfault]

end Calls

/-- In the course of a call, however deep methods, natives and initializers nest in it, at most one
fatal error comes up. If one does, the call ends with that same error, and from where it came up on no
moment passes: no instruction is executed, no handler is entered, no native is started and no object is
raised or taken up, and nothing is recorded but changes of the class table. And it has come up if the
call, or anything that is done in the course of it, ends with it. A fault in the body of a method comes
up as an error of its code. No error that ever comes up carries a guest object. -/
theorem fatal_errors_end_calls (host : Host) :
    (∀ (steps nesting : Nat) (call : Exec Value) (m : Machine), IsCall call →
      ∃ new : List Breakdown,
        (endOf (call (Session.context host steps nesting) m)).breakdowns.val =
          new ++ m.breakdowns.val ∧
        (∀ b ∈ new, new = [b] ∧ b.error.isFatal = true ∧
          ∃ m', call (Session.context host steps nesting) m = .error b.error m' ∧
            Session.runWithin host steps nesting call m = .error b.error m' ∧ b.LeadsTo m') ∧
        ∀ (e : Raise) (m' : Machine), call (Session.context host steps nesting) m = .error e m' →
          e.isFatal = true → ∃ b ∈ new, b.error = e) ∧
    (∀ (steps nesting : Nat) (α : Type) (x : Exec α) (m : Machine) (e : Raise) (m' : Machine),
      IsStage x → x (Session.context host steps nesting) m = .error e m' → e.isFatal = true →
        BreaksDown e m m') ∧
    (∀ (steps nesting : Nat) (m m' : Machine) (f : Frame) (callers : List Frame) (fault : Fault),
      m.frames = f :: callers →
      loop steps (Session.context host steps nesting) m = .error (.panic fault) m' →
      ∃ c, Interpreter.execute (Session.context host steps nesting) m =
          .error (.malformed c) (m'.breakDown (.malformed c)) ∧
        c.method = f.method.text ∧ c.reason = fault.message ∧
        (c.underflow = true ↔ fault = .stackUnderflow)) ∧
    ∀ m : Machine, Observed host m → ∀ b ∈ m.breakdowns.val, b.error.object? = none := by
  refine ⟨?_, ?_, ?_, fun m hm => hm.recorded.bare⟩
  · intro steps nesting call m hcall
    have hsurfaces : Surfaces m (call (Session.context host steps nesting) m) := hcall.surfacing m
    cases hrun : call (Session.context host steps nesting) m with
    | ok v m' =>
        rw [hrun] at hsurfaces
        exact ⟨[], hsurfaces, nofun, fun e m'' h => by contradiction⟩
    | error e m' =>
        rw [hrun] at hsurfaces
        cases he : e.isFatal with
        | false =>
            refine ⟨[], hsurfaces.2 he, nofun, fun e' m'' h he' => ?_⟩
            obtain ⟨rfl, rfl⟩ := EStateM.Result.error.inj h
            rw [he] at he'
            contradiction
        | true =>
            obtain ⟨b, rfl, hbreakdowns, hleads⟩ := hsurfaces.1 he
            refine ⟨[b], hbreakdowns, fun b' hb' => ?_, fun e' m'' h _ => ?_⟩
            · obtain rfl := List.mem_singleton.mp hb'
              refine ⟨rfl, he, m', rfl, ?_, hleads⟩
              rw [Session.runWithin, hrun]
              obtain ⟨u, hu⟩ | ⟨c, hc⟩ := Raise.fatal_cases he
              · rw [hu]
              · rw [hc]
            · obtain ⟨rfl, rfl⟩ := EStateM.Result.error.inj h
              exact ⟨b, List.mem_singleton_self b, rfl⟩
  · intro steps nesting α x m e m' hstage hrun he
    have hsurfaces : Surfaces m (x (Session.context host steps nesting) m) := hstage.surfacing m
    rw [hrun] at hsurfaces
    exact hsurfaces.1 he
  · intro steps nesting m m' f callers fault hframes hloop
    exact execute_panic hframes (by rwa [context_fuel])

section Example

/-- Code that calls a static method and has a handler for everything. -/
def guardedCode : Code :=
  ⟨0, 0, #[0xB8, 0, 6, 0xB1], [⟨0, 3, 3, []⟩], []⟩

/-- A class with a method of that code, which names a native of another class. -/
def guardFile : ClassFile where
  minor := 0
  major := 52
  pool := #[.blank, .utf8 "Mine", .link .classRef 1 0, .utf8 "dig", .utf8 "()V",
    .link .nameAndType 3 4, .link .methodref 2 5]
  flags := ⟨0x21⟩
  name := "Guard"
  superName := []
  interfaces := []
  fields := []
  methods := [⟨"guard", "()V", ⟨8⟩, some guardedCode, []⟩]
  sourceFile := []

/-- The class of that native, which is not bound. Its initializer is of that code too. -/
def mineFile : ClassFile :=
  { guardFile with
    name := "Mine"
    methods := [⟨"<clinit>", "()V", ⟨8⟩, some guardedCode, []⟩, ⟨"dig", "()V", ⟨0x108⟩, none, []⟩] }

/-- A host with these classes only. -/
def mineHost : Host where
  provider := some fun name =>
    if name = "Guard" then .ok guardFile
    else if name = "Mine" then .ok mineFile
    else .error "not found"
  currentTimeMillis := 0
  nanoTime := 0

/-- A method of that code. -/
def guarded (owner : Descriptor) (ownerName name : Text) (file : ClassFile) : Method :=
  ⟨owner, ownerName, name, "()V", ⟨8⟩, some guardedCode, ⟨[], "V", "()V"⟩, file⟩

def guardMethod : Method := guarded "LGuard;" "Guard" "guard" guardFile

def mineInit : Method := guarded "LMine;" "Mine" "<clinit>" mineFile

def mineDig : Method :=
  ⟨"LMine;", "Mine", "dig", "()V", ⟨0x108⟩, none, ⟨[], "V", "()V"⟩, mineFile⟩

/-- A method that takes from an empty stack, guarded too. -/
def popping : Method :=
  { guardMethod with code := some ⟨0, 0, #[0x57], [⟨0, 1, 0, []⟩], []⟩ }

def digRef : MemberRef := ⟨"Mine", "dig", "()V"⟩

/-- The records of the classes as they are defined. -/
def guardClass : RuntimeClass :=
  { RuntimeClass.bare "LGuard;" with
    flags := ⟨0x21⟩
    file := some guardFile
    methods := [guardMethod] }

def mineClass : RuntimeClass :=
  { RuntimeClass.bare "LMine;" with
    flags := ⟨0x21⟩
    file := some mineFile
    methods := [mineInit, mineDig] }

/-- What calls need, with room for so many of them. -/
structure Machine.Takes (m : Machine) (calls : Nat) : Prop where
  profiler : m.profiler = none
  natives : m.natives = .empty
  room : ((depthOf m.frames + calls : Nat) : Int) ≤ m.maxDepth

/-- The last moment was one of the activations of these methods. -/
def Machine.StoppedIn (m : Machine) (methods : List Method) : Prop :=
  ∃ s earlier, m.moments.val = s :: earlier ∧ s.frames.map Frame.method = methods

variable {m m₁ m₂ : Machine} {e : Raise} {steps nesting : Nat}

theorem Machine.Takes.mono {k n : Nat} (h : m.Takes n) (hk : k ≤ n) : m.Takes k where
  profiler := h.profiler
  natives := h.natives
  room := Int.le_trans (by omega) h.room

theorem Machine.Takes.note {n : Nat} (h : m.Takes n) (e : Event) : (m.note e).Takes n :=
  ⟨h.profiler, h.natives, h.room⟩

theorem Machine.Takes.withClasses {n : Nat} (h : m.Takes n) (t : ClassTable) :
    (m.withClasses t).Takes n :=
  ⟨h.profiler, h.natives, h.room⟩

/-- A native that is not bound. -/
theorem mineDig_stops (h : m.Takes 1) : ∃ u m', invokeMethod mineDig []
      (Session.context mineHost steps (nesting + 1)) m = .error (.unresolved u) m' ∧
    m'.StoppedIn (mineDig :: m.frames.map Frame.method) := by
  let ctx := Session.context mineHost steps nesting
  let entered : Machine := { m with frames := Frame.enter mineDig #[] m.frames :: m.frames }
  have hlocals : layoutLocals mineDig [] = some #[] := by decide +kernel
  have hprofile : profile mineDig ctx entered = .ok () entered := profile_off h.profiler
  have hmark : Exec.mark ctx entered = .ok () entered.mark := rfl
  have hget : (get : Exec Machine) ctx entered.mark = .ok entered.mark entered.mark := rfl
  have hunbound : entered.mark.natives.find? mineDig.ownerName mineDig.name mineDig.descriptor =
      none := by
    change m.natives.find? _ _ _ = none
    rw [h.natives, NativeTable.find?, NativeTable.empty, Std.HashMap.getElem?_empty]
    exact Std.HashMap.getElem?_empty
  obtain ⟨u, hbody⟩ : ∃ u, runBody mineDig #[] ctx entered =
      .error (.unresolved u) (entered.mark.breakDown (.unresolved u)) := by
    rw [runBody, bind_of_ok hprofile, if_pos (by decide), Native.call, bind_of_ok hmark,
      bind_of_ok hget, hunbound]
    exact ⟨_, rfl⟩
  refine ⟨u, { entered.mark.breakDown (.unresolved u) with frames := m.frames }, ?_,
    entered.moment, m.moments.val, mark_moments entered, rfl⟩
  rw [invokeMethod_enters (by decide) h.room hlocals, withFrame, hbody]

section Guarded

variable (owner : Descriptor) (ownerName name : Text) (file : ClassFile)

theorem guarded_flags : (guarded owner ownerName name file).isStatic = true ∧
    (guarded owner ownerName name file).isNative = false ∧
    (guarded owner ownerName name file).flags.isAbstract = false := by
  change AccessFlags.isStatic ⟨8⟩ = true ∧ AccessFlags.isNative ⟨8⟩ = false ∧
    AccessFlags.isAbstract ⟨8⟩ = false
  decide

/-- The activation of a method of that code, at its call, before and after its operands are read. -/
def Machine.calling (m : Machine) (pc : Int) : Machine :=
  { Machine.note (.executing owner) { m with
      frames := Frame.enter (guarded owner ownerName name file) #[] m.frames :: m.frames } with
    frames :=
      { Frame.enter (guarded owner ownerName name file) #[] m.frames with pc := pc } :: m.frames }

/-- The handler is of no use where the call fails for good. -/
theorem guarded_stops (h : m.Takes 1) (he : e.isFatal = true)
    (hstep : Step.run 0xB8 (Session.context mineHost (steps + 1) nesting)
      (m.calling owner ownerName name file 1) = .error e m₁) :
    invokeMethod (guarded owner ownerName name file) []
      (Session.context mineHost (steps + 1) (nesting + 1)) m =
        .error e { m₁ with frames := m.frames } := by
  let ctx := Session.context mineHost (steps + 1) nesting
  let entered : Machine := { m with
    frames := Frame.enter (guarded owner ownerName name file) #[] m.frames :: m.frames }
  obtain ⟨hstatic, hnative, habstract⟩ := guarded_flags owner ownerName name file
  have hlocals : layoutLocals (guarded owner ownerName name file) [] = some #[] := by
    rw [layoutLocals, hstatic]
    rfl
  have hprofile : profile (guarded owner ownerName name file) ctx entered = .ok () entered :=
    profile_off h.profiler
  have hfetch : fetch ctx entered = .ok 0xB8 (m.calling owner ownerName name file 1) := rfl
  have hread : (read : Exec Context) ctx entered = .ok ctx entered := rfl
  have hadvance : advance ctx entered = .error e m₁ := by
    rw [advance, bind_of_ok hfetch, attempt_bind_error hstep]
    obtain ⟨u, rfl⟩ | ⟨c, rfl⟩ := Raise.fatal_cases he <;> rfl
  have hloop : loop ctx.fuel ctx entered = .error e m₁ := by
    rw [context_fuel, loop_succ, hadvance]
  have hbody : runBody (guarded owner ownerName name file) #[] ctx entered = .error e m₁ := by
    have hcode : guardedCode.bytecode.size ≠ 0 := by decide
    rw [runBody_of_code hnative hcode hprofile, Interpreter.execute, bind_of_ok hread,
      attempt_bind_error hloop]
    obtain ⟨u, rfl⟩ | ⟨c, rfl⟩ := Raise.fatal_cases he <;> rfl
  rw [invokeMethod_enters habstract h.room hlocals, withFrame, hbody]
  obtain ⟨u, rfl⟩ | ⟨c, rfl⟩ := Raise.fatal_cases he <;> rfl

variable {owner ownerName name file}

/-- The call names the native. -/
theorem calling_digRef (hfile : file.memberRef 6 = .ok ("Mine", "dig", "()V")) (ctx : Context) :
    Reference.memberRef ctx (m.calling owner ownerName name file 1) =
      .ok digRef (m.calling owner ownerName name file 3) := by
  have hindex : onFrame FrameM.u2 ctx (m.calling owner ownerName name file 1) =
      .ok (0 * 256 + 6).toUInt16 (m.calling owner ownerName name file 3) := rfl
  have hcurrent : Reference.currentFile ctx (m.calling owner ownerName name file 3) =
      .ok file (m.calling owner ownerName name file 3) := rfl
  have hsix : (0 * 256 + 6).toUInt16 = 6 := by decide
  rw [hsix] at hindex
  rw [Reference.memberRef, bind_of_ok hindex, bind_of_ok hcurrent, hfile]
  rfl

/-- So does an instruction whose call does. -/
theorem step_stops {ctx : Context}
    (h : Reference.invoke Reference.staticCall ctx m = .error e m₁) :
    Step.run 0xB8 ctx m = .error e m₁ := by
  have hop : Opcode.ofByte? 0xB8 = some .invokestatic := by decide +kernel
  unfold Step.run
  rw [hop]
  exact bind_of_error h

end Guarded

/-- The record of the class while its initializer runs. -/
def mineBegun (statics : Ref) : RuntimeClass :=
  { mineClass with
    statics := some statics
    state := .initializing }

theorem ofInternal_mine : Descriptor.ofInternal "Mine" = "LMine;" := by
  decide +kernel

/-- The initializer comes to the native. -/
theorem mineInit_stops {statics : Ref} (h : m.Takes 2)
    (hc : m.classes[("LMine;" : Text)]? = some (mineBegun statics)) :
    ∃ u m', invokeMethod mineInit [] (Session.context mineHost (steps + 1) (nesting + 2)) m =
      .error (.unresolved u) m' ∧
    m'.StoppedIn (mineDig :: mineInit :: m.frames.map Frame.method) := by
  let ctx := Session.context mineHost (steps + 1) (nesting + 1)
  let m₁ : Machine := m.calling "LMine;" "Mine" "<clinit>" mineFile 3
  let m₂ : Machine := m₁.remembering "LMine;" digRef
  have hc₁ : m₁.classes[("LMine;" : Text)]? = some (mineBegun statics) := hc
  have hload : loadClass digRef.owner ctx m₁ = .ok (mineBegun statics) m₁ := by
    rw [loadClass, digRef, ofInternal_mine]
    exact classFor_ready mineHost steps nesting hc₁ (.inl rfl)
  have hfind : resolveMethod (mineBegun statics).descriptor digRef ctx m₁ = .ok (some mineDig) m₂ :=
    resolveMethod_own mineHost hc₁ rfl rfl rfl Std.HashMap.getElem?_empty rfl steps (nesting + 1)
  have htakes : m₂.Takes 1 := ⟨h.profiler, h.natives, by
    change ((depthOf m.frames + 1 + 1 : Nat) : Int) ≤ m.maxDepth
    exact h.room⟩
  obtain ⟨u, m', hdig, hstopped⟩ : ∃ u m', invokeMethod mineDig [] ctx m₂ =
      .error (.unresolved u) m' ∧ m'.StoppedIn (mineDig :: m₂.frames.map Frame.method) :=
    mineDig_stops htakes
  have hcall : Reference.staticCall ctx (m.calling "LMine;" "Mine" "<clinit>" mineFile 1) =
      .ok (mineDig, []) m₂ := by
    rw [Reference.staticCall, bind_of_ok (calling_digRef rfl ctx), bind_of_ok hload,
      bind_of_ok hfind]
    rfl
  have hstep : Step.run 0xB8 ctx (m.calling "LMine;" "Mine" "<clinit>" mineFile 1) =
      .error (.unresolved u) m' := by
    refine step_stops ?_
    rw [Reference.invoke, bind_of_ok hcall]
    exact bind_of_error hdig
  exact ⟨u, _, guarded_stops _ _ _ _ (h.mono (by omega)) rfl hstep, hstopped⟩

/-- The class of the native is loaded, and its initializer runs. -/
theorem mine_stops (h : m.Takes 2) (hnone : m.classes[("LMine;" : Text)]? = none) :
    ∃ u m', loadClass "Mine" (Session.context mineHost (steps + 2) (nesting + 3)) m =
      .error (.unresolved u) m' ∧
    m'.StoppedIn (mineDig :: mineInit :: m.frames.map Frame.method) := by
  let statics : Ref := ⟨m.heap.size + 1⟩
  let entered : Machine := Machine.withClasses
    { m with heap := m.heap.push (staticStorage "LMine;" mineFile) }
    (m.classes.insert "LMine;" { mineClass with statics := some statics })
  have hdefine : define mineHost "LMine;" = .ok mineClass := rfl
  have henter : enter "LMine;" mineClass (Session.context mineHost (steps + 2) (nesting + 3)) m =
      .ok () entered := by
    rw [enter_of_file rfl]
    rfl
  have hlink := link_new hnone hdefine henter nofun
  let linked : Machine := entered.withClasses (entered.classes.modify "LMine;" fun k =>
    { k with superclass := none, state := .linked })
  let c : RuntimeClass := { mineClass with statics := some statics, state := .linked }
  have hc : linked.classes[("LMine;" : Text)]? = some c := by
    rw [withClasses_classes, ClassTable.getElem?_modify, if_pos rfl, withClasses_classes,
      ClassTable.getElem?_insert, if_pos rfl]
    rfl
  -- The initializer starts with the class marked, and there is no superclass to initialize first.
  let moved : Machine := linked.withClasses (linked.classes.moved "LMine;" .initializing)
  let started : Machine := moved.note (.initializer "LMine;")
  have hgrown : Machine.Takes { m with heap := m.heap.push (staticStorage "LMine;" mineFile) } 2 :=
    ⟨h.profiler, h.natives, h.room⟩
  have htakes : started.Takes 2 := (((hgrown.withClasses _).withClasses _).withClasses _).note _
  have hbegun : started.classes[("LMine;" : Text)]? = some (mineBegun statics) :=
    ClassTable.moved_self hc _
  let ctx := Session.context mineHost (steps + 2) (nesting + 2)
  obtain ⟨u, m', hinit, hstopped⟩ : ∃ u m', invokeMethod mineInit [] ctx started =
      .error (.unresolved u) m' ∧
      m'.StoppedIn (mineDig :: mineInit :: started.frames.map Frame.method) :=
    mineInit_stops htakes hbegun
  have hup : initializeSuper c ctx moved = .ok () moved := rfl
  have hconstants : applyConstants c.name statics mineFile mineFile.fields ctx moved =
      .ok () moved := rfl
  have hmethod : c.declaredMethod? "<clinit>" "()V" = some mineInit := rfl
  have hnote : note (.initializer "LMine;") ctx moved = .ok () started := rfl
  have hrun : runInitializers "LMine;" c ctx moved = .error (.unresolved u) m' := by
    have hfile : c.file = some mineFile := rfl
    have hstatics : c.statics = some statics := rfl
    rw [runInitializers, bind_of_ok hup, hfile, hstatics]
    dsimp only
    rw [bind_of_ok hconstants, runInitializer, hmethod]
    dsimp only
    rw [bind_of_ok hnote]
    exact bind_of_error hinit
  have hfails := initializeOnce_fails hc (.inr rfl) hrun rfl
  refine ⟨u, m'.withClasses (m'.classes.moved "LMine;" (.failed none)), ?_, hstopped⟩
  rw [loadClass, ofInternal_mine, classFor, bind_of_ok hlink]
  exact bind_of_error hfails

/-- A call of the method by name. The other class is loaded for its call. -/
theorem guard_stops (h : m.Takes 3) (hframes : m.frames = [])
    (hnone : m.classes[("LMine;" : Text)]? = none) (hc : m.classes[("LGuard;" : Text)]? =
      some { guardClass with statics := some ⟨1⟩, state := .initialized }) :
    ∃ u m', Resolution.invoke "Guard" "guard" "()V" [] (Session.context mineHost 9 9) m =
      .error (.unresolved u) m' ∧ m'.StoppedIn [mineDig, mineInit, guardMethod] := by
  let ctx := Session.context mineHost 9 9
  let ref : MemberRef := ⟨"Guard", "guard", "()V"⟩
  let c : RuntimeClass := { guardClass with statics := some ⟨1⟩, state := .initialized }
  let m₁ : Machine := m.remembering "LGuard;" ref
  have hload : loadClass "Guard" ctx m = .ok c m := by
    rw [loadClass, show Descriptor.ofInternal "Guard" = "LGuard;" by decide +kernel]
    exact classFor_initialized mineHost 8 8 hc rfl
  have hfind : resolveMethod c.descriptor ref ctx m = .ok (some guardMethod) m₁ :=
    resolveMethod_own mineHost hc rfl rfl rfl Std.HashMap.getElem?_empty rfl 8 9
  let m₂ : Machine := m₁.calling "LGuard;" "Guard" "guard" guardFile 3
  have hnone₂ : m₂.classes[("LMine;" : Text)]? = none :=
    (ClassTable.getElem?_modify_of_ne (by decide) _).trans hnone
  have htakes : m₂.Takes 2 := ⟨h.profiler, h.natives, by
    change ((depthOf m.frames + 1 + 2 : Nat) : Int) ≤ m.maxDepth
    exact h.room⟩
  obtain ⟨u, m', hmine, hstopped⟩ : ∃ u m', loadClass "Mine" (Session.context mineHost 9 8) m₂ =
      .error (.unresolved u) m' ∧
      m'.StoppedIn (mineDig :: mineInit :: m₂.frames.map Frame.method) := mine_stops htakes hnone₂
  have hstep : Step.run 0xB8 (Session.context mineHost 9 8)
      (m₁.calling "LGuard;" "Guard" "guard" guardFile 1) = .error (.unresolved u) m' := by
    refine step_stops ?_
    rw [Reference.invoke]
    refine bind_of_error ?_
    rw [Reference.staticCall, bind_of_ok (calling_digRef rfl _)]
    exact bind_of_error hmine
  have htakes₁ : m₁.Takes 1 := ⟨h.profiler, h.natives, (h.mono (by omega)).room⟩
  have hcall : invokeMethod guardMethod [] ctx m₁ =
      .error (.unresolved u) { m' with frames := m₁.frames } :=
    guarded_stops _ _ _ _ htakes₁ rfl hstep
  refine ⟨u, { m' with frames := m₁.frames }, ?_, ?_⟩
  · rw [Resolution.invoke, bind_of_ok hload, bind_of_ok hfind]
    exact hcall
  · have hmethods : m₂.frames.map Frame.method = [guardMethod] := by
      change guardMethod :: m.frames.map Frame.method = _
      rw [hframes]
      rfl
    rwa [hmethods] at hstopped

theorem mineHost_loads : ∃ m : Machine, Used mineHost (fun _ _ => True) m ∧ m.Takes 3 ∧
    m.frames = [] ∧ m.classes[("LMine;" : Text)]? = none ∧ m.classes[("LGuard;" : Text)]? =
      some { guardClass with statics := some ⟨1⟩, state := .initialized } := by
  have hname : Descriptor.ofInternal "Guard" = "LGuard;" := by decide +kernel
  have hquiet : guardClass.IsQuiet := by
    refine ⟨fun file hfile => ?_, rfl⟩
    obtain rfl := Option.some.inj hfile
    simp [guardFile]
  have hdefine : define mineHost "LGuard;" = .ok guardClass := rfl
  obtain ⟨m, hused, hguard, hnone, hfresh⟩ :=
    used_of_first (fun _ _ => True) hname hdefine rfl rfl hquiet trivial
  have hsame : m.profiler = none ∧ m.frames = [] ∧ m.maxDepth = Session.defaultDepth := by
    rw [hfresh]
    exact ⟨rfl, rfl, rfl⟩
  obtain ⟨hprofiler, hframes, hlimit⟩ := hsame
  have hroom : ((depthOf m.frames + 3 : Nat) : Int) ≤ m.maxDepth := by
    rw [hframes, hlimit]
    decide
  obtain ⟨m₀, hnew, hmoments, huses⟩ := hused
  exact ⟨{ m with natives := .empty },
    ⟨m₀, hnew, hmoments, huses.tail (.adjust rfl rfl rfl rfl rfl rfl)⟩, ⟨hprofiler, rfl, hroom⟩,
    hframes, hnone _ (by decide), hguard⟩

/-- A native called by an initializer, which runs for the call of a method, ends the call of the method,
and neither handler is entered. An instruction that takes from an empty stack is an error of its code. -/
theorem fatal_errors_end_calls_guarded :
    (∃ (m m' : Machine) (u : Unresolved) (b : Breakdown), Used mineHost (fun _ _ => True) m ∧
      Resolution.invoke "Guard" "guard" "()V" [] (Session.context mineHost 9 9) m =
        .error (.unresolved u) m' ∧
      b ∈ m'.breakdowns.val ∧ b.error = .unresolved u ∧ b.error.object? = none ∧ b.LeadsTo m' ∧
      ∃ s earlier, b.moments = s :: earlier ∧
        s.frames.map Frame.method = [mineDig, mineInit, guardMethod]) ∧
    (∃ (m m' : Machine) (u : Unresolved),
      invokeMethod mineDig [] (Session.context mineHost 9 9) m = .error (.unresolved u) m' ∧
        BreaksDown (.unresolved u) m m') ∧
    ∃ (m m' : Machine) (c : Malformed),
      loop 9 (Session.context mineHost 9 9) m = .error (.panic .stackUnderflow) m' ∧
        Interpreter.execute (Session.context mineHost 9 9) m =
          .error (.malformed c) (m'.breakDown (.malformed c)) ∧
        c.reason = "operand stack underflow" ∧ c.underflow = true := by
  obtain ⟨m, hused, htakes, hframes, hnone, hguard⟩ := mineHost_loads
  obtain ⟨hcalls, hstages, hfaults, hbare⟩ := fatal_errors_end_calls mineHost
  refine ⟨?_, ?_, ?_⟩
  · obtain ⟨u, m', hrun, s, earlier, hmoments, hstopped⟩ := guard_stops htakes hframes hnone hguard
    obtain ⟨new, hnew, hends, hcame⟩ := hcalls 9 9 _ m (.named "Guard" "guard" "()V" [])
    obtain ⟨b, hb, herror⟩ := hcame _ _ hrun rfl
    obtain ⟨_, _, m'', hrun', _, hleads⟩ := hends b hb
    obtain ⟨_, rfl⟩ := EStateM.Result.error.inj (hrun.symm.trans hrun')
    rw [hrun] at hnew
    have hmem : b ∈ m'.breakdowns.val := hnew ▸ List.mem_append_left _ hb
    have hobserved : Observed mineHost m' := by
      have hend := Observed.busy hused.reachable rfl (.invoke "Guard" "guard" "()V" []) 9 9
      have hdiscard : (Request.invoke "Guard" "guard" "()V" []).perform
          (Session.context mineHost 9 9) m = .error (.unresolved u) m' := by
        change (Resolution.invoke "Guard" "guard" "()V" [] >>= fun _ => pure ()) _ m = _
        exact bind_of_error hrun
      rwa [Session.runWithin, hdiscard] at hend
    exact ⟨m, m', u, b, hused, hrun, hmem, herror, hbare m' hobserved b hmem, hleads, s, earlier,
      hleads.moments.symm.trans hmoments, hstopped⟩
  · obtain ⟨u, m', hrun, _⟩ := mineDig_stops (htakes.mono (by omega : 1 ≤ 3))
    exact ⟨m, m', u, hrun, hstages 9 9 _ _ m _ m' (.call mineDig []) hrun rfl⟩
  · let ctx := Session.context mineHost 9 9
    let m : Machine := { Session.fresh with frames := [Frame.enter popping #[] []] }
    have hop : Opcode.ofByte? 0x57 = some .pop := by decide +kernel
    have hfetch : fetch ctx m = .ok 0x57 (endOf (fetch ctx m)) := rfl
    have hstep : Step.run 0x57 ctx (endOf (fetch ctx m)) =
        .error (.panic .stackUnderflow) (endOf (fetch ctx m)) := by
      unfold Step.run
      rw [hop]
      rfl
    have hloop : loop 9 ctx m = .error (.panic .stackUnderflow) (endOf (fetch ctx m)) := by
      rw [loop_succ, advance, bind_of_ok hfetch, attempt_bind_error hstep]
      rfl
    obtain ⟨c, hexecute, _, hreason, hunderflow⟩ := hfaults 9 9 m _ _ _ _ rfl hloop
    exact ⟨m, _, c, hloop, hexecute, hreason, hunderflow.mpr rfl⟩

end Example

end ClassEngine
