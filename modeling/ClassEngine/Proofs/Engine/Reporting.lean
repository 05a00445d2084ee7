import ClassEngine.Proofs.Engine.CallChain
import ClassEngine.Proofs.Engine.ResolutionCache

/-!
What becomes of an object that a program throws and does not catch. It is asked to report itself, by
way of the name of its class: once if that class may be used, and not at all if the initialization
of that class has failed. Main result: `uncaught_objects_are_reported`.
-/

namespace ClassEngine

open Machine Exec Linking Resolution Allocation Interpreter Initialization

section Searching

variable {ctx : Context} {m : Machine} {d : Descriptor} {chain : List Descriptor}
  {names : List Text}

/-- A search does not leave the superclasses when one of them satisfies `p`. -/
theorem findDeclaring_of_ancestry {p : RuntimeClass → Bool} (h : m.classes.Ancestry d chain names)
    (hfuel : chain.length ≤ ctx.fuel) {k : Descriptor} (hk : k ∈ chain)
    (hp : m.classes.Tells p k true) : ∃ owner, findDeclaring d p ctx m = .ok (some owner) m := by
  obtain ⟨records, hrun, hrecords, _⟩ := ancestryWithin_of_ancestry h hfuel
  obtain ⟨c, hc, hpc⟩ := hp
  have hmem := hrecords.mem hk hc
  obtain ⟨found, hfound⟩ := Option.isSome_iff_exists.mp
    (List.find?_isSome.mpr ⟨c, hmem, hpc⟩)
  have hread : (read : Exec Context) ctx m = .ok ctx m := rfl
  refine ⟨found.descriptor, ?_⟩
  rw [findDeclaring, ancestry, bind_assoc, bind_of_ok hread, bind_of_ok hrun, hfound]
  rfl

/-- A method that a search from a class on finds. -/
structure ClassTable.FindsMethod (t : ClassTable) (d : Descriptor) (ref : MemberRef)
    (method : Method) : Prop where
  first : t.IsFirst d ref.methodIn method.owner
  declared : ∃ c, t[method.owner]? = some c ∧
    c.declaredMethod? ref.name ref.descriptor = some method

theorem ClassTable.IsFirst.findsMethod {host : Host} {t : ClassTable} {owner : Descriptor}
    {ref : MemberRef} (h : t.IsFirst d ref.methodIn owner) (ht : t.Sound host []) :
    ∃ c method, t[owner]? = some c ∧ c.declaredMethod? ref.name ref.descriptor = some method ∧
      t.FindsMethod d ref method := by
  obtain ⟨_, _, hfirst⟩ := id h
  obtain ⟨c, hc, _⟩ := hfirst.here
  obtain ⟨method, hmethod, _, _, howner⟩ := (ht.ownsMethods hc).declaredMethod (h.holds hc)
  obtain rfl := howner.trans (ht.descriptor hc)
  exact ⟨c, method, hc, hmethod, h, c, hc, hmethod⟩

theorem ClassTable.FindsMethod.signature {host : Host} {t : ClassTable} {ref : MemberRef}
    {method : Method} (h : t.FindsMethod d ref method) (ht : t.Sound host []) :
    Signature.parse ref.descriptor = .ok method.signature := by
  obtain ⟨c, hc, hmethod⟩ := h.declared
  have hsame := List.find?_some hmethod
  simp only [Bool.and_eq_true, beq_iff_eq] at hsame
  rw [← hsame.2]
  exact ht.signature hc (List.mem_of_find?_eq_some hmethod)

variable [SoundContext ctx]

/-- A method that a superclass declares is resolved without running any code, unless a field goes by
the same reference. -/
theorem resolveMethod_of_ancestry {ref : MemberRef} (hinv : m.Inv ctx.host)
    (hcoherent : m.Coherent .caches) (hd : m.classes.Started d)
    (hplain : (Descriptor.isArray d || Descriptor.isPrimitive d) = false)
    (h : m.classes.Ancestry d chain names) (hfuel : chain.length ≤ ctx.fuel) {k : Descriptor}
    (hk : k ∈ chain)
    (hdeclares : m.classes.Tells ref.methodIn k true)
    (hnofield : ∀ owner, ¬m.classes.IsFirst d ref.fieldIn owner) :
    ∃ method m', resolveMethod d ref ctx m = .ok (some method) m' ∧
      m.classes.FindsMethod d ref method ∧ ∃ t, m' = m ∨ m' = m.withClasses t := by
  have hstart : ClassTable.methodStart d = d := if_neg (by simp [hplain])
  obtain ⟨c, hc, _⟩ := id hd
  cases hcached : c.resolved[ref]? with
  | some owner =>
      have hfirst : m.classes.IsFirst d ref.methodIn owner := by
        rcases hcoherent.now hc hcached with hfield | hmethod
        · exact absurd hfield (hnofield owner)
        · rwa [hstart] at hmethod
      obtain ⟨c', method, hc', hmethod, hfinds⟩ := hfirst.findsMethod hinv.table
      refine ⟨method, m, ?_, hfinds, m.classes, .inl rfl⟩
      rw [resolveMethod, bind_of_ok (classAt_eq_ok hc), hcached]
      dsimp only
      rw [bind_of_ok (classAt_eq_ok hc'), hmethod]
      rfl
  | none =>
      obtain ⟨owner, hfind⟩ := findDeclaring_of_ancestry h hfuel hk hdeclares
      have hsound : Sound ctx _ (findDeclaring d ref.methodIn) _ :=
        sound_findDeclaring (lasting_methodIn ref) d
      obtain ⟨_, hfirst⟩ := (hsound.of_ok hinv hd hfind).2 owner rfl
      obtain ⟨c', method, hc', hmethod, hfinds⟩ := hfirst.findsMethod hinv.table
      let t := m.classes.modify d fun c => { c with resolved := c.resolved.insert ref owner }
      have hremember : remember d ref owner ctx m = .ok () (m.withClasses t) := rfl
      have hrecord : ∃ c'', (m.withClasses t).classes[owner]? = some c'' ∧
          c''.declaredMethod? ref.name ref.descriptor = some method := by
        rw [withClasses_classes, ClassTable.getElem?_modify]
        by_cases howner : d = owner
        · subst howner
          rw [if_pos rfl, hc']
          exact ⟨_, rfl, hmethod⟩
        · rw [if_neg howner]
          exact ⟨c', hc', hmethod⟩
      obtain ⟨c'', hc'', hmethod'⟩ := hrecord
      have hbare : (c.isArray || c.isPrimitive) = false := by
        rw [RuntimeClass.isArray, RuntimeClass.isPrimitive, hinv.table.descriptor hc, hplain]
      refine ⟨method, m.withClasses t, ?_, hfinds, t, .inr rfl⟩
      rw [resolveMethod, bind_of_ok (classAt_eq_ok hc), hcached]
      dsimp only
      rw [if_neg (by simp [hbare]), pure_bind]
      refine (bind_of_ok hfind).trans ?_
      dsimp only
      rw [bind_of_ok hremember, bind_of_ok (classAt_eq_ok hc''), hmethod']
      rfl

end Searching

/-- The reference by which an object of a class is asked to report itself. -/
def reportRef (d : Descriptor) : MemberRef :=
  ⟨Descriptor.className d, "printStackTrace", "()V"⟩

/-- How a program ends that has thrown an object, once the report of it has ended. -/
def afterReport (r : Ref) : EStateM.Result Raise Machine Value → EStateM.Result Raise Machine Unit
  | .ok _ m => .error (.thrown r) m
  | .error (.thrown other) m => .error (.thrown r) (m.note (.arrived other m.frames))
  | .error e m => .error (if e.isAbrupt then e else .thrown r) m

section Programs

variable {ctx : Context} {m m₁ : Machine} {r : Ref} {o : Object}

/-- The name of a program, with slashes. -/
def programName (className : Text) : Text :=
  Text.replaceByte (Text.ofAscii '.') (Text.ofAscii '/') className

/-- All that is done about an object that a program has thrown is to call for the report once. -/
theorem runMain_of_thrown {className : Text} {args : List Text}
    (h : Session.runEntry (programName className) args ctx m = .error (.thrown r) m₁)
    (hobject : m₁.heap[r.number - 1]? = some o) :
    Session.runMain className args ctx m =
      afterReport r (Resolution.invoke (Descriptor.className o.type) "printStackTrace" "()V"
        [.ref r] ctx (m₁.note (.arrived r m₁.frames))) := by
  let m₂ := m₁.note (.arrived r m₁.frames)
  have hget : (get : Exec Machine) ctx m₁ = .ok m₁ m₁ := rfl
  have hnote : note (.arrived r m₁.frames) ctx m₁ = .ok () m₂ := rfl
  have hat : objectAt r ctx m₂ = .ok o m₂ := objectAt_eq_ok hobject
  rw [Session.runMain]
  refine (attempt_bind_error h).trans ?_
  dsimp only
  rw [bind_of_ok hget, bind_of_ok hnote, bind_of_ok hat]
  cases hrun : Resolution.invoke (Descriptor.className o.type) "printStackTrace" "()V" [.ref r]
      ctx m₂ with
  | ok v m₃ =>
      rw [attempt_bind_ok hrun]
      rfl
  | error e m₃ =>
      rw [attempt_bind_error hrun]
      cases e <;> rfl

variable {host : Host} {steps nesting : Nat} {method : Method} {args : List Value}
  {locals : Array Value}

/-- A call that is within the limit is an activation. -/
theorem invokeMethod_enters (habstract : method.flags.isAbstract = false)
    (hlimit : ((depthOf m.frames + 1 : Nat) : Int) ≤ m.maxDepth)
    (hlocals : layoutLocals method args = some locals) :
    invokeMethod method args (Session.context host steps (nesting + 1)) m =
      withFrame (Frame.enter method locals m.frames) (runBody method locals)
        (Session.context host steps nesting) m := by
  change Interpreter.invoke method args (Session.context host steps nesting) m = _
  rw [Interpreter.invoke, habstract, if_neg (by simp), bind_of_ok (atLimit_eq m),
    decide_eq_false (Int.not_lt.mpr hlimit), if_neg (by simp), activate_eq hlocals]

/-- A call comes to its end with the body. -/
theorem invokeMethod_of_body {v : Value} {m' : Machine} (habstract : method.flags.isAbstract = false)
    (hroom : ((depthOf m.frames + 1 : Nat) : Int) ≤ m.maxDepth)
    (hlocals : layoutLocals method args = some locals)
    (hbody : runBody method locals (Session.context host steps nesting)
      { m with frames := Frame.enter method locals m.frames :: m.frames } = .ok v m') :
    invokeMethod method args (Session.context host steps (nesting + 1)) m =
      .ok v { m' with frames := m.frames } := by
  rw [invokeMethod_enters habstract hroom hlocals, withFrame, hbody]

/-- An instance method without arguments has room for its receiver. -/
theorem layoutLocals_receiver (hstatic : method.isStatic = false)
    (hsignature : method.signature.arguments = []) (v : Value) :
    ∃ locals, layoutLocals method [v] = some locals := by
  rw [layoutLocals, hstatic, hsignature]
  exact ⟨_, rfl⟩

/-- A call by the name of a class that may be used. -/
theorem invoke_of_ready {owner name descriptor : Text} {d : Descriptor} {m₂ : Machine}
    (hname : Descriptor.ofInternal owner = d) (hd : m.classes.Ready d) (hinv : m.Inv host)
    (hrun : resolveMethod d ⟨owner, name, descriptor⟩
      (Session.context host (steps + 1) (nesting + 1)) m = .ok (some method) m₂) :
    Resolution.invoke owner name descriptor args
        (Session.context host (steps + 1) (nesting + 1)) m =
      invokeMethod method args (Session.context host (steps + 1) (nesting + 1)) m₂ := by
  obtain ⟨c, hc, hstate⟩ := hd
  have hload : loadClass owner (Session.context host (steps + 1) (nesting + 1)) m = .ok c m := by
    rw [loadClass, hname]
    exact classFor_ready host steps nesting hc hstate
  rw [Resolution.invoke, bind_of_ok hload, hinv.table.descriptor hc, bind_of_ok hrun]

/-- A class whose initialization has failed. -/
def ClassTable.HasFailed (t : ClassTable) (d : Descriptor) : Prop :=
  ∃ c, t[d]? = some c ∧ c.state = .failed none

theorem ClassTable.Started.ready_or_hasFailed {t : ClassTable} {d : Descriptor} (h : t.Started d) :
    t.Ready d ∨ t.HasFailed d := by
  obtain ⟨c, hc, hstarted⟩ := h
  match hstate : c.state, hstarted with
  | .initializing, _ => exact .inl ⟨c, hc, .inl hstate⟩
  | .initialized, _ => exact .inl ⟨c, hc, .inr hstate⟩
  | .failed none, _ => exact .inr ⟨c, hc, hstate⟩

/-- The error that is thrown instead of loading a class whose initialization has failed. -/
def refusal (d : Descriptor) : Exec Unit :=
  throwNew "java/lang/NoClassDefFoundError"
    ("Could not initialize class " ++ Descriptor.sourceName d)

/-- A call by the name of a class whose initialization has failed does not come to any method. -/
theorem invoke_of_failed {owner name descriptor : Text} {d : Descriptor}
    (hname : Descriptor.ofInternal owner = d) (hd : m.classes.HasFailed d) :
    ∃ e m₂, refusal d (Session.context host (steps + 1) nesting) m = .error e m₂ ∧
      Resolution.invoke owner name descriptor args
        (Session.context host (steps + 1) (nesting + 1)) m = .error e m₂ := by
  obtain ⟨c, hc, hstate⟩ := hd
  have hlink : link d (Session.context host (steps + 1) (nesting + 1)) m = .ok () m := by
    rw [link_eq, context_fuel, linkWithin_registered hc, hstate]
  cases hrun : refusal d (Session.context host (steps + 1) nesting) m with
  | ok u m₂ => exact absurd hrun (throwNew_ne_ok _ _ _ _ _)
  | error e m₂ =>
      have hinit : initializeClass d (Session.context host (steps + 1) (nesting + 1)) m =
          .error e m₂ := by
        change initializeOnce d (Session.context host (steps + 1) nesting) m = _
        rw [initializeOnce, bind_of_ok (classAt_eq_ok hc), hstate]
        exact hrun
      have hload : loadClass owner (Session.context host (steps + 1) (nesting + 1)) m =
          .error e m₂ := by
        rw [loadClass, hname, classFor, bind_of_ok hlink, bind_of_error hinit]
      exact ⟨e, m₂, rfl, bind_of_error hload⟩

end Programs

/-- The class of all that is thrown. -/
def throwable : Descriptor :=
  Descriptor.ofInternal "java/lang/Throwable"

/-- A class that may be used, below the class of all that is thrown, which declares the report. No
field goes by the same reference. The superclasses are at most `steps`. -/
structure ClassTable.CanReport (t : ClassTable) (d : Descriptor) (steps : Nat) : Prop where
  ready : t.Ready d
  throwable : ∃ chain names, t.Ancestry d chain names ∧ chain.length ≤ steps ∧ throwable ∈ chain
  declared : t.Tells (reportRef d).methodIn ClassEngine.throwable true
  noField : ∀ owner, ¬t.IsFirst d (reportRef d).fieldIn owner

/-- The type of a class that is found again by its name. -/
structure Descriptor.IsClass (d : Descriptor) : Prop where
  shape : ∃ name : Text, d = "L" ++ name ++ ";"
  ofInternal : Descriptor.ofInternal (Descriptor.className d) = d

theorem Descriptor.IsClass.plain {d : Descriptor} (h : d.IsClass) :
    (Descriptor.isArray d || Descriptor.isPrimitive d) = false := by
  obtain ⟨name, rfl⟩ := h.shape
  have harray : Descriptor.isArray ("L" ++ name ++ ";") = false := rfl
  have hlength : (("L" ++ name ++ ";" : Text).length == 1) = false := by
    change (([_] ++ name ++ [_] : Text).length == 1) = false
    simp
  rw [harray, Descriptor.isPrimitive, hlength]
  rfl

section Reports

variable {host now : Host} {m m₁ : Machine} {d : Descriptor} {r : Ref} {steps nesting : Nat}

/-- An engine on which a program has ended by throwing an object. -/
theorem runEntry_thrown {may : Request → Machine → Prop} {name : Text} {args : List Text}
    (hm : Used host may m) (hnow : now.provider = host.provider)
    (h : Session.runEntry name args (Session.context now steps nesting) m = .error (.thrown r) m₁) :
    m₁.Inv now ∧ m₁.Coherent .caches ∧ m₁.frames = [] ∧ m₁.maxDepth = m.maxDepth := by
  let ctx := Session.context now steps nesting
  have hentry : Safe ctx (Session.runEntry name args) := safe_runEntry name args
  have hinv : m.Inv ctx.host := by
    rw [context_host]
    exact hm.reachable.inv.of_provider hnow
  have hcoherent : m.Coherent .caches := hm.coherent fun _ _ _ h => by contradiction
  have hend := hentry.coherent m hinv trivial hcoherent
  have hmeets := hentry.meets m
  rw [h] at hend hmeets
  have hinv₁ := (hmeets.2.2 ⟨hinv, trivial⟩).2 (by simp)
  rw [context_host] at hinv₁
  exact ⟨hinv₁, hend, hmeets.1.frames_nil hm.reachable.frames, hmeets.1.limit⟩

theorem parse_report : Signature.parse "()V" = .ok ⟨[], "V", "()V"⟩ := by
  decide

/-- A class that can report does it in one activation, and no code is run before. -/
theorem report_of_canReport (hinv : m.Inv host) (hcoherent : m.Coherent .caches)
    (hframes : m.frames = []) (hd : d.IsClass) (h : m.classes.CanReport d (steps + 1)) :
    ∃ method m₂, resolveMethod d (reportRef d) (Session.context host (steps + 1) (nesting + 1)) m =
        .ok (some method) m₂ ∧
      m.classes.FindsMethod d (reportRef d) method ∧ m₂.moments = m.moments ∧
      (method.flags.isAbstract = false → method.isStatic = false → 1 ≤ m.maxDepth →
        ∃ locals, layoutLocals method [.ref r] = some locals ∧
          Resolution.invoke (Descriptor.className d) "printStackTrace" "()V" [.ref r]
              (Session.context host (steps + 1) (nesting + 1)) m =
            withFrame (Frame.enter method locals []) (runBody method locals)
              (Session.context host (steps + 1) nesting) m₂) := by
  let ctx := Session.context host (steps + 1) (nesting + 1)
  have hinv' : m.Inv ctx.host := by rwa [context_host]
  obtain ⟨chain, names, hchain, hlength, hmem⟩ := h.throwable
  have hfuel : chain.length ≤ ctx.fuel := by rwa [context_fuel]
  obtain ⟨method, m₂, hresolve, hfinds, t, hm₂⟩ := resolveMethod_of_ancestry hinv'
    hcoherent h.ready.started hd.plain hchain hfuel hmem h.declared h.noField
  obtain ⟨hmoments, hframes₂, hlimit₂⟩ :
      m₂.moments = m.moments ∧ m₂.frames = [] ∧ m₂.maxDepth = m.maxDepth := by
    rcases hm₂ with rfl | rfl
    · exact ⟨rfl, hframes, rfl⟩
    · exact ⟨rfl, hframes, rfl⟩
  refine ⟨method, m₂, hresolve, hfinds, hmoments, fun habstract hstatic hlimit => ?_⟩
  have harguments : method.signature.arguments = [] := by
    rw [← Except.ok.inj (parse_report.symm.trans (hfinds.signature hinv.table))]
  obtain ⟨locals, hlocals⟩ := layoutLocals_receiver hstatic harguments (.ref r)
  have hwithin : ((depthOf m₂.frames + 1 : Nat) : Int) ≤ m₂.maxDepth := by
    rw [hframes₂, hlimit₂]
    exact hlimit
  refine ⟨locals, hlocals, ?_⟩
  rw [invoke_of_ready hd.ofInternal h.ready hinv hresolve,
    invokeMethod_enters habstract hwithin hlocals, hframes₂]

end Reports

/-- Let a program end by throwing an instance of a class. The class may be used, or its
initialization has failed. If it may be used, and is below the class of all that is thrown, then the
report is the method that is found from that class on, the search for it runs no code, and unless
the method cannot be entered at all, the rest of the run is one activation of it, after which the
object is thrown on. If its initialization has failed, an error is made in place of the report, and
the object is thrown on. -/
theorem uncaught_objects_are_reported {host now : Host} {may : Request → Machine → Prop}
    {m m₁ : Machine} {steps nesting : Nat} {className : Text} {args : List Text} {r : Ref}
    {o : Object} (hm : Used host may m) (hnow : now.provider = host.provider)
    (hthrown : Session.runEntry (programName className) args
      (Session.context now (steps + 1) (nesting + 1)) m = .error (.thrown r) m₁)
    (hobject : m₁.heap[r.number - 1]? = some o) (hinstance : o.storage = false)
    (hclass : o.type.IsClass) :
    (m₁.classes.Ready o.type ∨ m₁.classes.HasFailed o.type) ∧
    (m₁.classes.CanReport o.type (steps + 1) → ∃ method m₂,
      resolveMethod o.type (reportRef o.type) (Session.context now (steps + 1) (nesting + 1))
        (m₁.note (.arrived r [])) = .ok (some method) m₂ ∧
      m₁.classes.FindsMethod o.type (reportRef o.type) method ∧
      m₂.moments = (m₁.note (.arrived r [])).moments ∧
      (method.flags.isAbstract = false → method.isStatic = false → 1 ≤ m.maxDepth →
        ∃ locals, layoutLocals method [.ref r] = some locals ∧
          Session.runMain className args (Session.context now (steps + 1) (nesting + 1)) m =
            afterReport r (withFrame (Frame.enter method locals []) (runBody method locals)
              (Session.context now (steps + 1) nesting) m₂))) ∧
    (m₁.classes.HasFailed o.type → ∃ e m₂,
      refusal o.type (Session.context now (steps + 1) nesting) (m₁.note (.arrived r [])) =
        .error e m₂ ∧
      Session.runMain className args (Session.context now (steps + 1) (nesting + 1)) m =
        afterReport r (.error e m₂)) := by
  obtain ⟨hinv₁, hcoherent₁, hframes₁, hlimit₁⟩ := runEntry_thrown hm hnow hthrown
  have hmain := runMain_of_thrown hthrown hobject
  rw [hframes₁] at hmain
  let m₂ := m₁.note (.arrived r [])
  have hinv₂ : m₂.Inv now := hinv₁.takenUp (.inl (by rw [hframes₁]))
  have hstarted : m₁.classes.Started o.type := hinv₁.heap hobject hinstance
  refine ⟨hstarted.ready_or_hasFailed, fun hreport => ?_, fun hfailed => ?_⟩
  · obtain ⟨method, m₃, hresolve, hfinds, hmoments, henters⟩ :=
      report_of_canReport (m := m₂) (r := r) hinv₂ (hcoherent₁.note _) hframes₁ hclass hreport
    refine ⟨method, m₃, hresolve, hfinds, hmoments, fun habstract hstatic hlimit => ?_⟩
    have hlimit₂ : 1 ≤ m₂.maxDepth := by rwa [← hlimit₁] at hlimit
    obtain ⟨locals, hlocals, hinvoke⟩ := henters habstract hstatic hlimit₂
    exact ⟨locals, hlocals, by rw [hmain, hinvoke]⟩
  · have hfailed₂ : m₂.classes.HasFailed o.type := hfailed
    obtain ⟨e, m₃, hrefusal, hinvoke⟩ := invoke_of_failed hclass.ofInternal hfailed₂
    exact ⟨e, m₃, hrefusal, by rw [hmain, hinvoke]⟩

section Throwing

variable {ctx : Context} {m m₁ m₂ : Machine} {f f' : Frame} {callers : List Frame} {r : Ref}
  {method : Method}

/-- A new instance of a class that is there. -/
theorem newInstance_ok {index : UInt16} {name : Text} {c : RuntimeClass}
    {chain : List Descriptor} {names : List Text} (hframes : m.frames = f :: callers)
    (hread : FrameM.u2 f = .ok (index, f')) (hname : f'.method.file.className index = .ok name)
    (hload : ∀ m' : Machine, m'.classes = m.classes → loadClass name ctx m' = .ok c m')
    (hplain : (c.isArray || c.isInterface || c.flags.isAbstract) = false)
    (hchain : m.classes.Ancestry c.descriptor chain names) (hfuel : chain.length ≤ ctx.fuel) :
    ∃ slots moments, Reference.newInstance ctx m = .ok () { m with
      heap := m.heap.push { Object.empty c.descriptor with fields := slots }
      frames := { f' with stack := .ref ⟨m.heap.size + 1⟩ :: f'.stack } :: callers
      moments := moments } := by
  let m₁ : Machine := { m with frames := f' :: callers }
  have hindex : onFrame FrameM.u2 ctx m = .ok index m₁ := by
    rw [onFrame, hframes]
    dsimp only
    rw [hread]
  have href : Reference.classRef ctx m = .ok name m₁ := by
    have hfile : Reference.currentFile ctx m₁ = .ok f'.method.file m₁ := rfl
    rw [Reference.classRef, bind_of_ok hindex, bind_of_ok hfile, hname]
    rfl
  have hcontext : (read : Exec Context) ctx m₁ = .ok ctx m₁ := rfl
  have hchain₁ : m₁.classes.Ancestry c.descriptor chain names := hchain
  obtain ⟨records, hancestry, _⟩ := ancestryWithin_of_ancestry hchain₁ hfuel
  obtain ⟨slots, hinstance⟩ := instanceOfChain_eq c.descriptor records
  let m₂ : Machine :=
    { m₁ with heap := m.heap.push { Object.empty c.descriptor with fields := slots } }
  have hnew : newObject c.descriptor ctx m₁ = .ok ⟨m.heap.size + 1⟩
      (m₂.markAccess (.made ⟨m.heap.size + 1⟩ c.descriptor)) := by
    have hchain : ancestry c.descriptor ctx m₁ = .ok records m₁ := by
      rw [ancestry, bind_of_ok hcontext, hancestry]
    rw [newObject_of_ancestry hchain, hinstance]
  refine ⟨slots, (m₂.markAccess (.made ⟨m.heap.size + 1⟩ c.descriptor)).moments, ?_⟩
  rw [Reference.newInstance, bind_of_ok href, bind_of_ok (hload m₁ rfl), hplain, if_neg (by simp)]
  exact bind_of_ok hnew

/-- What is thrown where there is no handler stays thrown. -/
theorem advance_unhandled {byte : UInt8} {o : Object} (hfetch : fetch ctx m = .ok byte m₁)
    (hstep : Step.run byte ctx m₁ = .error (.thrown r) m₂) (hframes : m₂.frames = f :: callers)
    (hobject : m₂.heap[r.number - 1]? = some o)
    (hhandlers : f.method.code.elim [] Code.handlers = []) :
    advance ctx m = .error (.thrown r) (m₂.note (.arrived r m₂.frames)) := by
  let m₃ := m₂.note (.arrived r m₂.frames)
  have hframes₃ : m₃.frames = f :: callers := hframes
  have hobject₃ : m₃.heap[r.number - 1]? = some o := hobject
  have hfind : findHandler f.opPc o.type (f.method.code.elim [] Code.handlers) ctx m₃ =
      .ok none m₃ := by
    rw [hhandlers]
    rfl
  rw [advance_of_thrown hfetch hstep]
  exact dispatch_of_found hframes₃ hobject₃ hfind

/-- A body whose second instruction throws. -/
theorem runBody_of_second (hprofiler : m.profiler = none) (hnative : method.isNative = false)
    (hcode : (method.code.elim 0 fun c => c.bytecode.size) ≠ 0) (hfuel : 2 ≤ ctx.fuel)
    (hfirst : advance ctx m = .ok .next m₁) (hsecond : advance ctx m₁ = .error (.thrown r) m₂)
    (locals : Array Value) : runBody method locals ctx m = .error (.thrown r) m₂ := by
  rw [runBody_of_code hnative hcode (profile_off hprofiler)]
  exact execute_thrown (.step hfirst (.refl m₁)) hfuel hsecond

/-- A class whose initializer throws a new object of a named class. -/
def boomFile (thrown : Text) : ClassFile where
  minor := 0
  major := 52
  pool := #[.blank, .utf8 thrown, .link .classRef 1 0]
  flags := ⟨0x21⟩
  name := "Boom"
  superName := "java/lang/Throwable"
  interfaces := []
  fields := []
  methods := [⟨"<clinit>", "()V", ⟨8⟩, some ⟨1, 0, #[0xBB, 0x00, 0x02, 0xBF], [], []⟩, []⟩]
  sourceFile := []

/-- The initializer. -/
def boomInit (thrown : Text) : Method :=
  ⟨"LBoom;", "Boom", "<clinit>", "()V", ⟨8⟩, some ⟨1, 0, #[0xBB, 0x00, 0x02, 0xBF], [], []⟩,
    ⟨[], "V", "()V"⟩, boomFile thrown⟩

theorem boomInit_flags (thrown : Text) : (boomInit thrown).isNative = false ∧
    (boomInit thrown).flags.isAbstract = false ∧ (boomInit thrown).isStatic = true := by
  have hflags : AccessFlags.isNative ⟨8⟩ = false ∧ AccessFlags.isAbstract ⟨8⟩ = false ∧
      AccessFlags.isStatic ⟨8⟩ = true := by decide
  exact hflags

theorem boomInit_locals (thrown : Text) : layoutLocals (boomInit thrown) [] = some #[] := by
  rw [layoutLocals, (boomInit_flags thrown).2.2]
  rfl

theorem boomInit_throws {thrown : Text} {c : RuntimeClass} {chain : List Descriptor}
    {names : List Text}
    (hload : ∀ m' : Machine, m'.classes = m.classes → loadClass thrown ctx m' = .ok c m')
    (hplain : (c.isArray || c.isInterface || c.flags.isAbstract) = false)
    (hchain : m.classes.Ancestry c.descriptor chain names) (hlength : chain.length ≤ ctx.fuel)
    (hfuel : 2 ≤ ctx.fuel) (hprofiler : m.profiler = none) (callers : List Frame) :
    ∃ slots m', runBody (boomInit thrown) #[] ctx
        { m with frames := Frame.enter (boomInit thrown) #[] callers :: callers } =
        .error (.thrown ⟨m.heap.size + 1⟩) m' ∧
      m'.classes = m.classes ∧
      m'.heap = m.heap.push { Object.empty c.descriptor with fields := slots } := by
  let entered : Machine := { m with frames := Frame.enter (boomInit thrown) #[] callers :: callers }
  let f : Frame := { Frame.enter (boomInit thrown) #[] callers with pc := 1 }
  let f' : Frame := { f with pc := 3 }
  have hread : FrameM.u2 f = .ok (2, f') := by
    have hhigh : FrameM.u1 f = .ok (0x00, { f with pc := 2 }) := rfl
    have hlow : FrameM.u1 { f with pc := 2 } = .ok (0x02, f') := rfl
    unfold FrameM.u2
    simp only [bind, StateT.bind, hhigh, hlow, Except.bind]
    rfl
  have hname : f'.method.file.className 2 = .ok thrown := rfl
  let m₁ := endOf (fetch ctx entered)
  have hframes₁ : m₁.frames = f :: callers := rfl
  have hchain₁ : m₁.classes.Ancestry c.descriptor chain names := hchain
  obtain ⟨slots, moments, hinstance⟩ := newInstance_ok hframes₁ hread hname hload hplain hchain₁ hlength
  let m₂ : Machine := { m₁ with
    heap := m.heap.push { Object.empty c.descriptor with fields := slots }
    frames := { f' with stack := [.ref ⟨m.heap.size + 1⟩] } :: callers
    moments := moments }
  have hfirst : advance ctx entered = .ok .next m₂ := by
    have hfetch : fetch ctx entered = .ok 0xBB m₁ := rfl
    have hop : Opcode.ofByte? 0xBB = some .newObject := by decide +kernel
    have hrun : Step.run 0xBB ctx m₁ = .ok .next m₂ := by
      unfold Step.run
      rw [hop]
      exact bind_of_ok hinstance
    rw [advance, bind_of_ok hfetch, attempt_bind_ok hrun]
    rfl
  have hrun : ∃ m₄ g, Step.run 0xBF ctx (endOf (fetch ctx m₂)) =
      .error (.thrown ⟨m.heap.size + 1⟩) m₄ ∧ m₄.classes = m.classes ∧ m₄.heap = m₂.heap ∧
      m₄.frames = g :: callers ∧ g.method = boomInit thrown := by
    have hop : Opcode.ofByte? 0xBF = some .athrow := by decide +kernel
    unfold Step.run
    rw [hop]
    exact ⟨_, _, rfl, rfl, rfl, rfl, rfl⟩
  obtain ⟨m₄, g, hrun, hclasses, hheap, hframes, hmethod⟩ := hrun
  have hobject : m₄.heap[m.heap.size + 1 - 1]? =
      some { Object.empty c.descriptor with fields := slots } := by
    rw [hheap]
    exact Array.getElem?_push_size
  have hsecond : advance ctx m₂ = .error (.thrown ⟨m.heap.size + 1⟩)
      (m₄.note (.arrived ⟨m.heap.size + 1⟩ m₄.frames)) :=
    advance_unhandled rfl hrun hframes hobject (by rw [hmethod]; rfl)
  have hentered : entered.profiler = none := hprofiler
  have hcode : ((boomInit thrown).code.elim 0 fun c => c.bytecode.size) ≠ 0 := nofun
  have hbody := runBody_of_second hentered (boomInit_flags thrown).1 hcode hfuel hfirst hsecond #[]
  exact ⟨slots, _, hbody, hclasses, hheap⟩

end Throwing

/-- A root class without members. -/
def objectFile : ClassFile :=
  ⟨0, 52, #[], ⟨0x21⟩, "java/lang/Object", [], [], [], [], []⟩

/-- The class of all that is thrown, with a report that does nothing. -/
def throwableFile : ClassFile where
  minor := 0
  major := 52
  pool := #[]
  flags := ⟨0x21⟩
  name := "java/lang/Throwable"
  superName := "java/lang/Object"
  interfaces := []
  fields := []
  methods := [⟨"printStackTrace", "()V", ⟨1⟩, some ⟨0, 1, #[0xB1], [], []⟩, []⟩]
  sourceFile := []

/-- A host with a root class, the class of all that is thrown, and the class that throws. -/
def boomHost (thrown : Text) : Host where
  provider := some fun name =>
    if name = "java/lang/Object" then .ok objectFile
    else if name = "java/lang/Throwable" then .ok throwableFile
    else if name = "Boom" then .ok (boomFile thrown)
    else .error "not found"
  currentTimeMillis := 0
  nanoTime := 0

/-- The report of that class. -/
def reportMethod : Method :=
  ⟨throwable, "java/lang/Throwable", "printStackTrace", "()V", ⟨1⟩, some ⟨0, 1, #[0xB1], [], []⟩,
    ⟨[], "V", "()V"⟩, throwableFile⟩

/-- The records as they are defined. -/
def objectClass : RuntimeClass :=
  { RuntimeClass.bare Descriptor.object with flags := ⟨0x21⟩, file := some objectFile }

theorem objectClass_isQuiet : objectClass.IsQuiet := by
  refine ⟨fun file hfile => ?_, rfl⟩
  obtain rfl := Option.some.inj hfile
  simp [objectFile]

def throwableClass : RuntimeClass :=
  { RuntimeClass.bare throwable with
    superName := "java/lang/Object"
    flags := ⟨0x21⟩
    file := some throwableFile
    methods := [reportMethod] }

def boomClass (thrown : Text) : RuntimeClass :=
  { RuntimeClass.bare "LBoom;" with
    superName := "java/lang/Throwable"
    flags := ⟨0x21⟩
    file := some (boomFile thrown)
    methods := [boomInit thrown] }

theorem define_object (thrown : Text) :
    define (boomHost thrown) Descriptor.object = .ok objectClass := rfl

theorem define_throwable (thrown : Text) :
    define (boomHost thrown) throwable = .ok throwableClass := rfl

theorem define_boom (thrown : Text) :
    define (boomHost thrown) "LBoom;" = .ok (boomClass thrown) := rfl

theorem boomHost_loads (thrown : Text) : ∃ m : Machine, Used (boomHost thrown) (fun _ _ => True) m ∧
    m.Holds [throwable, Descriptor.object] ∧ m.maxDepth = 1 ∧ m.profiler = none := by
  have hquiet : throwableClass.IsQuiet := by
    refine ⟨fun file hfile => ?_, by decide⟩
    obtain rfl := Option.some.inj hfile
    simp [throwableFile]
  obtain ⟨m₁, hm₁, hholds₁⟩ := (used_fresh (boomHost thrown) fun _ _ => True).load holds_fresh
    ofInternal_object (by simp) (define_object thrown) objectClass_isQuiet (.inl rfl)
    trivial
  obtain ⟨m₂, hm₂, hholds₂⟩ := hm₁.load hholds₁ rfl (by decide) (define_throwable thrown)
    hquiet (.inr (by decide)) trivial
  obtain ⟨m₀, hnew, hmoments, huses⟩ := hm₂
  exact ⟨{ m₂ with maxDepth := 1, profiler := none },
    ⟨m₀, hnew, hmoments, huses.tail (.adjust rfl rfl rfl rfl rfl rfl)⟩,
    ⟨hholds₂.initialized, hholds₂.others⟩, rfl, rfl⟩

/-- The class of all that is thrown and the root class, in the table of that host. -/
theorem boomHost_ancestry {thrown : Text} {m : Machine} (hinv : m.Inv (boomHost thrown))
    (hholds : m.Holds [throwable, Descriptor.object]) {t : ClassTable}
    (hsame : ∀ k, k ≠ ("LBoom;" : Text) → t[k]? = m.classes[k]?) :
    ∃ names, t.Ancestry throwable [throwable, Descriptor.object] names := by
  obtain ⟨k, hk, hkstate⟩ := hholds.initialized throwable (by simp)
  obtain ⟨o, ho, hostate⟩ := hholds.initialized Descriptor.object (by simp)
  have hksuper := hinv.table.superclass hk (by rw [hkstate]; trivial) (define_throwable thrown)
  have hosuper := hinv.table.superclass ho (by rw [hostate]; trivial) (define_object thrown)
  have habove : Descriptor.ofInternal throwableClass.superName = Descriptor.object := by
    decide
  rw [if_neg (by decide), habove] at hksuper
  have hroot : objectClass.superName = [] := rfl
  rw [if_pos hroot] at hosuper
  rw [← hsame throwable (by decide)] at hk
  rw [← hsame Descriptor.object (by decide)] at ho
  exact ⟨_, .super hk hksuper (.root ho hosuper)⟩

/-- A record of a table whose class can be instantiated at once. -/
structure ClassTable.Provides (t : ClassTable) (d : Descriptor) (c : RuntimeClass) : Prop where
  record : t[d]? = some c
  ready : c.state = .initializing ∨ c.state = .initialized
  descriptor : c.descriptor = d
  plain : (c.isArray || c.isInterface || c.flags.isAbstract) = false
  ancestry : ∃ chain names, t.Ancestry d chain names ∧ chain.length ≤ 3

/-- The class of what is thrown is there while the initializer runs, be it the class of the
initializer itself. -/
theorem boomHost_provides {thrown : Text} {m : Machine} (hinv : m.Inv (boomHost thrown))
    (hholds : m.Holds [throwable, Descriptor.object]) {t : ClassTable} {c : RuntimeClass}
    (hsame : ∀ k, k ≠ ("LBoom;" : Text) → t[k]? = m.classes[k]?)
    (hc : t[("LBoom;" : Text)]? = some c) (hdefined : c.DefinedBy (boomClass thrown))
    (hstate : c.state = .initializing) (hsuper : c.superclass = some throwable)
    (hthrown : thrown = "java/lang/Throwable" ∨ thrown = "Boom") :
    ∃ c', t.Provides (Descriptor.ofInternal thrown) c' := by
  obtain ⟨names, hchain⟩ := boomHost_ancestry hinv hholds hsame
  rcases hthrown with rfl | rfl
  · obtain ⟨k, hk, hkstate⟩ := hholds.initialized throwable (by simp)
    obtain ⟨k₀, hk₀, hkdefined⟩ := hinv.table.defined hk
    obtain rfl := Except.ok.inj ((define_throwable _).symm.trans hk₀)
    refine ⟨k, (hsame throwable (by decide)).trans hk, .inr hkstate, ?_, ?_, _, names,
      hchain, by decide⟩
    · rw [hkdefined]
      rfl
    · have hplain : (throwableClass.isArray || throwableClass.isInterface ||
          throwableClass.flags.isAbstract) = false := by decide
      rw [hkdefined]
      exact hplain
  · have hname : Descriptor.ofInternal "Boom" = "LBoom;" := by decide
    rw [hname]
    refine ⟨c, hc, .inl hstate, ?_, ?_, _, _, .super hc hsuper hchain, by decide⟩
    · rw [hdefined]
      rfl
    · have hplain : ((boomClass "Boom").isArray || (boomClass "Boom").isInterface ||
          (boomClass "Boom").flags.isAbstract) = false := by decide
      rw [hdefined]
      exact hplain

/-- The initializer of the class throws, and the class is marked as failed. -/
theorem boom_initialization {thrown : Text} {m : Machine} {c k c' : RuntimeClass} {statics : Ref}
    (hc : m.classes[("LBoom;" : Text)]? = some c) (hdefined : c.DefinedBy (boomClass thrown))
    (hstatics : c.statics = some statics) (hstate : c.state = .linked)
    (hsuper : c.superclass = some throwable) (hk : m.classes[throwable]? = some k)
    (hkstate : k.state = .initialized)
    (hprovides :
      (m.classes.moved "LBoom;" .initializing).Provides (Descriptor.ofInternal thrown) c')
    (hframes : m.frames = []) (hlimit : m.maxDepth = 1) (hprofiler : m.profiler = none) :
    ∃ slots m₁, initializeClass "LBoom;" (Session.context (boomHost thrown) 9 9) m =
        .error (.thrown ⟨m.heap.size + 1⟩) m₁ ∧
      m₁.classes = (m.classes.moved "LBoom;" .initializing).moved "LBoom;" (.failed none) ∧
      m₁.heap =
        m.heap.push { Object.empty (Descriptor.ofInternal thrown) with fields := slots } := by
  let moved : Machine := m.withClasses (m.classes.moved "LBoom;" .initializing)
  let started : Machine := moved.note (.initializer "LBoom;")
  let r : Ref := ⟨m.heap.size + 1⟩
  obtain ⟨chain, names, hchain, hlength⟩ := hprovides.ancestry
  have hload : ∀ m' : Machine, m'.classes = started.classes →
      loadClass thrown (Session.context (boomHost thrown) 9 7) m' = .ok c' m' := by
    intro m' hm'
    have hrecord : m'.classes[Descriptor.ofInternal thrown]? = some c' := by
      rw [hm']
      exact hprovides.record
    exact classFor_ready _ 8 6 hrecord hprovides.ready
  have hchain' : started.classes.Ancestry c'.descriptor chain names := hprovides.descriptor ▸ hchain
  obtain ⟨slots, m', hbody, hclasses, hheap⟩ := boomInit_throws hload hprovides.plain hchain'
    (by rw [context_fuel]; omega) (by rw [context_fuel]; omega) hprofiler []
  let unwound : Machine := { m' with frames := [] }.note (.unwound r [])
  have hcall : invokeMethod (boomInit thrown) [] (Session.context (boomHost thrown) 9 8) started =
      .error (.thrown r) unwound := by
    have hstarted : started.frames = [] := hframes
    have hwithin : ((depthOf started.frames + 1 : Nat) : Int) ≤ started.maxDepth := by
      rw [hstarted]
      exact hlimit.symm.le
    rw [invokeMethod_enters (boomInit_flags thrown).2.1 hwithin (boomInit_locals thrown), withFrame,
      hstarted, hbody]
    rfl
  have hinit : runInitializers "LBoom;" c (Session.context (boomHost thrown) 9 8) moved =
      .error (.thrown r) unwound := by
    have hup : initializeSuper c (Session.context (boomHost thrown) 9 8) moved = .ok () moved := by
      have hrecord : moved.classes[throwable]? = some k := by
        rw [withClasses_classes, ClassTable.moved, ClassTable.getElem?_modify,
          if_neg (by decide), hk]
      rw [initializeSuper, hsuper]
      exact initializeOnce_ready hrecord (.inr hkstate)
    have hfile : c.file = some (boomFile thrown) := by
      rw [hdefined]
      rfl
    have hmethod : c.declaredMethod? "<clinit>" "()V" = some (boomInit thrown) := by
      rw [hdefined]
      rfl
    have hconstants : applyConstants c.name statics (boomFile thrown) (boomFile thrown).fields
        (Session.context (boomHost thrown) 9 8) moved = .ok () moved := rfl
    have hnote : note (.initializer "LBoom;") (Session.context (boomHost thrown) 9 8) moved =
        .ok () started := rfl
    rw [runInitializers, bind_of_ok hup, hfile, hstatics]
    dsimp only
    rw [bind_of_ok hconstants, runInitializer, hmethod]
    dsimp only
    rw [bind_of_ok hnote, bind_of_error hcall]
  refine ⟨slots, unwound.withClasses (unwound.classes.moved "LBoom;" (.failed none)),
    initializeOnce_fails hc (.inr hstate) hinit rfl, ?_, ?_⟩
  · rw [withClasses_classes]
    exact congrArg (fun t : ClassTable => t.moved "LBoom;" (.failed none)) hclasses
  · rw [← hprovides.descriptor]
    exact hheap

/-- The program ends with what the initializer of its class throws. -/
theorem boomHost_throws {thrown : Text} {m : Machine} (hinv : m.Inv (boomHost thrown))
    (hframes : m.frames = []) (hholds : m.Holds [throwable, Descriptor.object])
    (hlimit : m.maxDepth = 1) (hprofiler : m.profiler = none)
    (hthrown : thrown = "java/lang/Throwable" ∨ thrown = "Boom") :
    ∃ r o m₁, Session.runEntry (programName "Boom") [] (Session.context (boomHost thrown) 9 9) m =
        .error (.thrown r) m₁ ∧
      m₁.heap[r.number - 1]? = some o ∧ o.type = Descriptor.ofInternal thrown ∧ o.storage = false ∧
      (∃ c, m₁.classes[("LBoom;" : Text)]? = some c ∧ c.state = .failed none ∧
        c.superclass = some throwable) ∧
      ∀ k, k ≠ ("LBoom;" : Text) → m₁.classes[k]? = m.classes[k]? := by
  have hd : m.classes[("LBoom;" : Text)]? = none := hholds.others _ (by decide)
  obtain ⟨k, hk, hkstate⟩ := hholds.initialized throwable (by simp)
  let c₁ : RuntimeClass := { boomClass thrown with statics := some ⟨m.heap.size + 1⟩ }
  let entered : Machine := Machine.withClasses
    { m with heap := m.heap.push (staticStorage "LBoom;" (boomFile thrown)) }
    (m.classes.insert "LBoom;" c₁)
  have henter : enter "LBoom;" (boomClass thrown) (Session.context (boomHost thrown) 9 9) m =
      .ok () entered := by
    rw [enter_of_file rfl]
    rfl
  have hentered : ∀ k, k ≠ ("LBoom;" : Text) → entered.classes[k]? = m.classes[k]? := fun k hk => by
    rw [withClasses_classes, ClassTable.getElem?_insert, if_neg hk.symm]
  have hsuper : entered.classes[throwable]? = some k := by
    rw [hentered throwable (by decide), hk]
  let c₂ : RuntimeClass := { c₁ with superclass := some throwable, state := .linked }
  let linked : Machine := entered.withClasses (entered.classes.modify "LBoom;" fun k =>
    { k with superclass := some throwable, state := .linked })
  have hlink : link "LBoom;" (Session.context (boomHost thrown) 9 9) m = .ok () linked :=
    (link_new hd (define_boom thrown) henter fun _ => ⟨k, hsuper, by rw [hkstate]; trivial⟩).trans rfl
  have hc₂ : linked.classes[("LBoom;" : Text)]? = some c₂ := by
    rw [withClasses_classes, ClassTable.getElem?_modify, if_pos rfl, withClasses_classes,
      ClassTable.getElem?_insert, if_pos rfl]
    rfl
  have hlinked : ∀ k, k ≠ ("LBoom;" : Text) → linked.classes[k]? = m.classes[k]? := fun k hk => by
    rw [withClasses_classes, ClassTable.getElem?_modify_of_ne hk, hentered k hk]
  have hmoved : ∀ k, k ≠ ("LBoom;" : Text) →
      (linked.classes.moved "LBoom;" .initializing)[k]? = m.classes[k]? := fun k hk => by
    rw [ClassTable.getElem?_modify_of_ne hk, hlinked k hk]
  obtain ⟨c, hprovides⟩ := boomHost_provides hinv hholds hmoved (ClassTable.moved_self hc₂ _)
    rfl rfl rfl hthrown
  obtain ⟨slots, m₁, hinit, hclasses, hheap⟩ := boom_initialization hc₂ rfl rfl rfl rfl
    ((hlinked throwable (by decide)).trans hk) hkstate hprovides hframes hlimit hprofiler
  have hname : Descriptor.ofInternal (programName "Boom") = "LBoom;" := by decide
  have hload : loadClass (programName "Boom") (Session.context (boomHost thrown) 9 9) m =
      .error (.thrown ⟨linked.heap.size + 1⟩) m₁ := by
    rw [loadClass, hname, classFor, bind_of_ok hlink, bind_of_error hinit]
  refine ⟨_, { Object.empty (Descriptor.ofInternal thrown) with fields := slots }, m₁,
    bind_of_error hload, ?_, rfl, rfl, ?_, ?_⟩
  · rw [hheap]
    exact Array.getElem?_push_size
  · rw [hclasses]
    exact ⟨_, ClassTable.moved_self (ClassTable.moved_self hc₂ _) _, rfl, rfl⟩
  · intro k hk
    rw [hclasses, ClassTable.getElem?_modify_of_ne hk, hmoved k hk]

/-- The record of the class of all that is thrown declares the report. -/
theorem boomHost_declares {thrown : Text} {m : Machine} (hinv : m.Inv (boomHost thrown))
    {k : RuntimeClass} (hk : m.classes[throwable]? = some k) :
    k.declaredMethod? "printStackTrace" "()V" = some reportMethod := by
  obtain ⟨k₀, hk₀, hdefined⟩ := hinv.table.defined hk
  obtain rfl := Except.ok.inj ((define_throwable thrown).symm.trans hk₀)
  have hdeclared : throwableClass.declaredMethod? "printStackTrace" "()V" = some reportMethod := rfl
  rw [hdefined]
  exact hdeclared

/-- No class of that host has a field. -/
theorem boomHost_noField {thrown : Text} {m m₁ : Machine} (hinv : m₁.Inv (boomHost thrown))
    (hholds : m.Holds [throwable, Descriptor.object])
    (hsame : ∀ k, k ≠ ("LBoom;" : Text) → m₁.classes[k]? = m.classes[k]?) (ref : MemberRef)
    (d owner : Descriptor) : ¬m₁.classes.IsFirst d ref.fieldIn owner := by
  rintro ⟨_, _, hfirst⟩
  obtain ⟨c, hc, hfield⟩ := hfirst.here
  obtain ⟨c₀, hc₀, hdefined⟩ := hinv.table.defined hc
  have hnone : c₀.fields = [] := by
    by_cases hboom : owner = ("LBoom;" : Text)
    · subst hboom
      obtain rfl := Except.ok.inj ((define_boom thrown).symm.trans hc₀)
      rfl
    · rw [hsame owner hboom] at hc
      by_cases hmem : owner ∈ [throwable, Descriptor.object]
      · simp only [List.mem_cons, List.not_mem_nil, or_false] at hmem
        rcases hmem with rfl | rfl
        · obtain rfl := Except.ok.inj ((define_throwable thrown).symm.trans hc₀)
          rfl
        · obtain rfl := Except.ok.inj ((define_object thrown).symm.trans hc₀)
          rfl
      · rw [hholds.others owner hmem] at hc
        contradiction
  have hfields : c.fields = [] := by
    rw [hdefined]
    exact hnone
  rw [MemberRef.fieldIn, RuntimeClass.declaredField?, hfields] at hfield
  contradiction

theorem throwable_isClass : throwable.IsClass where
  shape := ⟨"java/lang/Throwable", by decide⟩
  ofInternal := by decide

theorem uncaught_objects_are_reported_boom : ∃ (m m₂ : Machine) (r : Ref) (locals : Array Value),
    Used (boomHost "java/lang/Throwable") (fun _ _ => True) m ∧
    Session.runMain "Boom" [] (Session.context (boomHost "java/lang/Throwable") 9 9) m =
      afterReport r (withFrame (Frame.enter reportMethod locals []) (runBody reportMethod locals)
        (Session.context (boomHost "java/lang/Throwable") 9 8) m₂) := by
  obtain ⟨m, hm, hholds, hlimit, hprofiler⟩ := boomHost_loads "java/lang/Throwable"
  obtain ⟨r, o, m₁, hthrown, hobject, htype, hinstance, _, hsame⟩ :=
    boomHost_throws hm.reachable.inv hm.reachable.frames hholds hlimit hprofiler (.inl rfl)
  obtain ⟨hinv₁, _⟩ := runEntry_thrown hm rfl hthrown
  have htype : o.type = throwable := htype
  obtain ⟨k, hk, hkstate⟩ := hholds.initialized throwable (by simp)
  rw [← hsame throwable (by decide +kernel)] at hk
  obtain ⟨names, hchain⟩ := boomHost_ancestry hm.reachable.inv hholds hsame
  have hdeclared := boomHost_declares hinv₁ hk
  have htells : m₁.classes.Tells (reportRef throwable).methodIn throwable true := by
    refine ⟨k, hk, ?_⟩
    change (k.declaredMethod? "printStackTrace" "()V").isSome = true
    rw [hdeclared]
    rfl
  have hreport : m₁.classes.CanReport o.type 9 := by
    rw [htype]
    exact ⟨⟨k, hk, .inr hkstate⟩, ⟨_, names, hchain, by decide, List.mem_cons_self⟩, htells,
      boomHost_noField hinv₁ hholds hsame _ _⟩
  obtain ⟨method, m₂, _, hfinds, _, henters⟩ := (uncaught_objects_are_reported hm rfl hthrown
    hobject hinstance (htype ▸ throwable_isClass)).2.1 hreport
  have hfirst : m₁.classes.IsFirst o.type (reportRef o.type).methodIn throwable := by
    rw [htype]
    exact ⟨[], .supers hchain ⟨_, rfl⟩, htells, by simp⟩
  have hmethod : method = reportMethod := by
    obtain ⟨c, hc, hfound⟩ := hfinds.declared
    rw [hfinds.first.unique hfirst] at hc
    obtain rfl := Option.some.inj (hk.symm.trans hc)
    exact Option.some.inj (hfound.symm.trans hdeclared)
  subst hmethod
  obtain ⟨locals, _, hrun⟩ := henters (by decide +kernel) (by decide +kernel) hlimit.symm.le
  exact ⟨m, m₂, r, locals, hm, hrun⟩

/-- The object is below the class of all that is thrown, and that declares the report; and yet
nothing is done before the object is thrown on, as not even the error in place of the report can be
made. -/
theorem uncaught_object_of_failed_class_is_not_reported :
    ∃ (m m₁ : Machine) (r : Ref) (o : Object), Used (boomHost "Boom") (fun _ _ => True) m ∧
      Session.runEntry (programName "Boom") [] (Session.context (boomHost "Boom") 9 9) m =
        .error (.thrown r) m₁ ∧ m₁.heap[r.number - 1]? = some o ∧
      (∃ chain names, m₁.classes.Ancestry o.type chain names ∧ throwable ∈ chain) ∧
      m₁.classes.Tells (reportRef o.type).methodIn throwable true ∧
      ∃ u, Session.runMain "Boom" [] (Session.context (boomHost "Boom") 9 9) m =
        .error (.thrown r) ((m₁.note (.arrived r [])).breakDown (.unresolved u)) := by
  obtain ⟨m, hm, hholds, hlimit, hprofiler⟩ := boomHost_loads "Boom"
  obtain ⟨r, o, m₁, hthrown, hobject, htype, hinstance, ⟨c, hc, hstate, hsuper⟩, hsame⟩ :=
    boomHost_throws hm.reachable.inv hm.reachable.frames hholds hlimit hprofiler (.inr rfl)
  have hname : Descriptor.ofInternal "Boom" = "LBoom;" := by decide +kernel
  rw [hname] at htype
  obtain ⟨hinv₁, _, hframes₁, _⟩ := runEntry_thrown hm rfl hthrown
  obtain ⟨k, hk, _⟩ := hholds.initialized throwable (by simp)
  rw [← hsame throwable (by decide +kernel)] at hk
  obtain ⟨names, hchain⟩ := boomHost_ancestry hm.reachable.inv hholds hsame
  have hchain' : m₁.classes.Ancestry o.type ["LBoom;", throwable, Descriptor.object]
      (c.interfaces ++ names) := by
    rw [htype]
    exact .super hc hsuper hchain
  refine ⟨m, m₁, r, o, hm, hthrown, hobject, ⟨_, _, hchain', by simp⟩, ⟨k, hk, ?_⟩, ?_⟩
  · change (k.declaredMethod? "printStackTrace" "()V").isSome = true
    rw [boomHost_declares hinv₁ hk]
    rfl
  · let m₂ := m₁.note (.arrived r [])
    have hfailed : m₂.classes.HasFailed "LBoom;" := ⟨c, hc, hstate⟩
    have hback : Descriptor.ofInternal (Descriptor.className "LBoom;") = "LBoom;" := by
      decide +kernel
    -- The error in place of the report cannot be made either, as its class is missing.
    have hrefusal : ∃ u, refusal "LBoom;" (Session.context (boomHost "Boom") 9 8) m₂ =
        .error (.unresolved u) (m₂.breakDown (.unresolved u)) := by
      have hmissing : m₂.classes[Descriptor.ofInternal "java/lang/NoClassDefFoundError"]? = none :=
        (hsame _ (by decide +kernel)).trans (hholds.others _ (by decide +kernel))
      have hlink : link (Descriptor.ofInternal "java/lang/NoClassDefFoundError")
          (Session.context (boomHost "Boom") 9 8) m₂ = _ :=
        linkWithin_undefined hmissing rfl 8
      exact ⟨_, bind_of_error (bind_of_error hlink)⟩
    obtain ⟨u, hrefusal⟩ := hrefusal
    obtain ⟨e, m₃, hrefused, hinvoke⟩ := invoke_of_failed hback hfailed
    obtain ⟨rfl, rfl⟩ := EStateM.Result.error.inj (hrefusal.symm.trans hrefused)
    refine ⟨u, ?_⟩
    rw [runMain_of_thrown hthrown hobject, hframes₁, htype, hinvoke]
    rfl

end ClassEngine
