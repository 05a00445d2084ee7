import ClassEngine.Proofs.Engine.InstructionSizes
import ClassEngine.Proofs.Engine.LocalsLayout
import ClassEngine.Proofs.Engine.ResolutionCache

/-!
The calling convention. A call instruction takes the receiver and the arguments off the operand stack of
its activation, as many as the type of the method that it binds has, and the method starts with them
laid out in the local variables of an activation of its own; once it has come to its end, only its result
is left of it on the operand stack of the caller. Main result: `calls_keep_convention`.
-/

namespace ClassEngine

open Machine Exec Linking Resolution Allocation Interpreter

section Operands

open Reference

variable {ctx : Context} {n : Nat} {f g : Frame}

theorem of_popN_ok {vs : List Value} (h : FrameM.popN n f = .ok (vs, g)) :
    vs.length = n ∧ ∃ rest, f.stack = vs.reverse ++ rest ∧ g = { f with stack := rest } := by
  unfold FrameM.popN at h
  split at h
  · contradiction
  case isFalse hle =>
    obtain ⟨rfl, rfl⟩ := Prod.mk.inj (Except.ok.inj h)
    refine ⟨?_, f.stack.drop n, ?_, rfl⟩
    · rw [List.length_reverse, List.length_take]
      omega
    · rw [List.reverse_reverse, List.take_append_drop]

theorem of_u2_ok {v : UInt16} (h : FrameM.u2 f = .ok (v, g)) : g = { f with pc := f.pc + 2 } := by
  have hreading : g = { f with pc := g.pc } := FrameM.keeps_u2 (F := .reading) h
  rw [hreading, (FrameM.passes_u2 h).pc]
  rfl

variable {m m' : Machine} {callers : List Frame}

theorem memberRef_frames {ref : MemberRef} (h : memberRef ctx m = .ok ref m')
    (hframes : m.frames = f :: callers) : m'.frames = { f with pc := f.pc + 2 } :: callers := by
  obtain ⟨index, m₁, hindex, hrest⟩ := of_bind_ok h
  obtain ⟨g, hu2, hframes₁⟩ := onFrame_ok hframes hindex
  rw [of_u2_ok hu2] at hframes₁
  exact frames_of_respects (by grind) hrest hframes₁

end Operands

section Signatures

variable {ctx : Context} [SoundContext ctx] {m m' : Machine} {c : RuntimeClass} {method : Method}
  {ref : MemberRef}

theorem declaredMethod_signature (h : c.declaredMethod? ref.name ref.descriptor = some method)
    (hsignature : ∀ k ∈ c.methods, Signature.parse k.descriptor = .ok k.signature) :
    Signature.parse ref.descriptor = .ok method.signature := by
  have hsame := List.find?_some h
  simp only [Bool.and_eq_true, beq_iff_eq] at hsame
  rw [← hsame.2]
  exact hsignature method (List.mem_of_find?_eq_some h)

/-- A search binds a method of the type that the reference names. -/
theorem resolveMethod_signature {d : Descriptor} (hinv : m.Inv ctx.host)
    (hd : m.classes.Started d) (h : resolveMethod d ref ctx m = .ok (some method) m') :
    Signature.parse ref.descriptor = .ok method.signature := by
  obtain ⟨_, c, _, hc, hfound⟩ := resolveMethod_comesTo hinv hd h
  have hinv' := ((sound_resolveMethod d ref).of_ok hinv hd h).1
  exact declaredMethod_signature hfound.symm fun k hk => hinv'.table.signature hc hk

theorem resolveSpecial_signature {caller : RuntimeClass} (hinv : m.Inv ctx.host)
    (hcaller : caller.Known m) (h : resolveSpecial (some caller) ref ctx m = .ok (some method) m') :
    Signature.parse ref.descriptor = .ok method.signature := by
  obtain ⟨named, m₁, hload, h⟩ := of_bind_ok h
  obtain ⟨hinv₁, _, hnamed⟩ := (sound_loadClass (P := fun _ => True) _).of_ok hinv trivial hload
  have hevolves := Safe.evolves (safe_loadClass _) hload
  have hcaller₁ : ∀ c, some caller = some c → c.Known m₁ := fun c hc =>
    Option.some.inj hc ▸ stable_known caller hevolves.classes hevolves.heap hcaller
  obtain ⟨start, m₂, hstart, h⟩ := of_bind_ok h
  have hsearch : Sound ctx _ (startsAbove (some caller) ref named.descriptor) _ :=
    sound_startsAbove _ _ _
  obtain ⟨hinv₂, habove⟩ := hsearch.of_ok hinv₁ hcaller₁ hstart
  have hevolves₂ := hsearch.evolves_of_ok hstart
  have hknown := stable_known named hevolves₂.classes hevolves₂.heap hnamed
  cases start with
  | some above => exact resolveMethod_signature hinv₂ (habove above rfl) h
  | none =>
      cases hdeclared : named.declaredMethod? ref.name ref.descriptor with
      | some declared =>
          rw [hdeclared] at h
          obtain ⟨hmethod, rfl⟩ := EStateM.Result.ok.inj h
          obtain rfl := Option.some.inj hmethod
          obtain ⟨c, hc, hkeeps⟩ := hknown.record
          refine declaredMethod_signature hdeclared fun k hk => hinv₂.table.signature hc ?_
          rwa [hkeeps]
      | none =>
          rw [hdeclared] at h
          dsimp only at h
          split at h
          · contradiction
          · exact resolveMethod_signature hinv₂ hknown.started h

end Signatures

section Targets

open Reference

variable {ctx : Context} {m m' : Machine} {f : Frame} {callers : List Frame} {method : Method}
  {args : List Value} {ref : MemberRef} {n receivers : Nat}

/-- An instruction has set a call up: it has read `n` bytes of the code of its activation and taken off
its operand stack the arguments of the method, on top of an object if there is a receiver. -/
structure SetUp (receivers n : Nat) (f : Frame) (callers : List Frame) (call : Call) (m : Machine) :
    Prop where
  count : call.2.length = receivers + call.1.signature.arguments.length
  receiver : receivers = 1 → ∃ r, call.2[0]? = some (.ref r)
  taken : ∃ rest, f.stack = call.2.reverse ++ rest ∧
    m.frames = { f with stack := rest, pc := f.pc + n } :: callers

theorem of_check_ok {α : Type} {r : Except Fault α} {a : α} (h : check r ctx m = .ok a m') :
    r = .ok a ∧ m' = m := by
  cases r with
  | error fault => contradiction
  | ok b =>
      obtain ⟨rfl, rfl⟩ := EStateM.Result.ok.inj h
      exact ⟨rfl, rfl⟩

/-- What an instruction gives that calls the method which a search has found. -/
theorem of_found_ok {find : Exec (Option Method)} {args₁ : List Value}
    (h : (do let m ← found (← find); pure (m, args₁) : Exec Call) ctx m = .ok (method, args) m') :
    args = args₁ ∧ find ctx m = .ok (some method) m' := by
  obtain ⟨first, m₁, hfind, h⟩ := of_bind_ok h
  cases first with
  | none => contradiction
  | some first =>
      obtain ⟨hcall, rfl⟩ := EStateM.Result.ok.inj h
      obtain ⟨rfl, rfl⟩ := Prod.mk.inj hcall
      exact ⟨rfl, hfind⟩

/-- The receiver and the arguments of an instance call, by the type that the instruction names. -/
theorem popCall_ok {r : Ref} (h : popCall ref ctx m = .ok (r, args) m')
    (hframes : m.frames = f :: callers) :
    ∃ signature rest, Signature.parse ref.descriptor = .ok signature ∧
      args.length = signature.arguments.length + 1 ∧ args[0]? = some (.ref r) ∧
      f.stack = args.reverse ++ rest ∧ m'.frames = { f with stack := rest } :: callers := by
  unfold popCall at h
  cases hparse : Signature.parse ref.descriptor with
  | error e =>
      rw [hparse] at h
      exact absurd h malformed_ne_ok
  | ok signature =>
      rw [hparse] at h
      obtain ⟨popped, m₁, hpop, h⟩ := of_bind_ok h
      obtain ⟨g, hpopN, hframes₁⟩ := onFrame_ok hframes hpop
      obtain ⟨hlength, rest, hstack, rfl⟩ := of_popN_ok hpopN
      obtain ⟨receiver, m₂, hreceiver, h⟩ := of_bind_ok h
      obtain ⟨hasRef, rfl⟩ := of_check_ok hreceiver
      cases receiver with
      | none => exact absurd h (throwNew_ne_ok _ _ _ _ _)
      | some r' =>
          obtain ⟨hpair, rfl⟩ := EStateM.Result.ok.inj h
          obtain ⟨rfl, rfl⟩ := Prod.mk.inj hpair
          refine ⟨signature, rest, rfl, hlength, ?_, hstack, hframes₁⟩
          cases popped with
          | nil => contradiction
          | cons v vs => exact congrArg some (FrameM.asRef_eq_ok hasRef)

variable [SoundContext ctx] [RespectingContext .sameFrames ctx]

theorem receiverCall_setUp (hinv : m.Inv ctx.host) (hframes : m.frames = f :: callers)
    (h : receiverCall ref ctx m = .ok (method, args) m') :
    SetUp 1 0 f callers (method, args) m' := by
  obtain ⟨⟨r, args₁⟩, m₁, hpop, h⟩ := of_bind_ok h
  obtain ⟨signature, rest, hparse, hlength, hreceiver, hstack, hframes₁⟩ := popCall_ok hpop hframes
  have hinv₁ := ((safe_popCall ref).of_ok hinv trivial hpop).1
  obtain ⟨type, m₂, htype, h⟩ := of_bind_ok h
  obtain ⟨hinv₂, hstarted⟩ := (sound_receiverType (P := fun _ => True) r).of_ok hinv₁ trivial htype
  obtain ⟨rfl, hfind⟩ := of_found_ok h
  have hsignature := resolveMethod_signature hinv₂ hstarted hfind
  obtain rfl := Except.ok.inj (hparse.symm.trans hsignature)
  have hframes₂ := frames_of_respects (respects_receiverType r) htype hframes₁
  refine ⟨hlength.trans (Nat.add_comm _ _), fun _ => ⟨r, hreceiver⟩, rest, hstack, ?_⟩
  rw [frames_of_respects (respects_resolveMethod _ _) hfind hframes₂]
  simp

/-- What the operands of a call lead to comes with those operands. -/
theorem SetUp.after {k : Nat} {call : Call}
    (h : SetUp receivers n { f with pc := f.pc + k } callers call m) :
    SetUp receivers (k + n) f callers call m where
  count := h.count
  receiver := h.receiver
  taken := by
    obtain ⟨rest, hstack, hframes⟩ := h.taken
    refine ⟨rest, hstack, ?_⟩
    rw [hframes, Int.natCast_add, Int.add_assoc]

theorem virtualCall_setUp (hinv : m.Inv ctx.host) (hframes : m.frames = f :: callers)
    (h : virtualCall ctx m = .ok (method, args) m') : SetUp 1 2 f callers (method, args) m' := by
  obtain ⟨ref, m₁, href, h⟩ := of_bind_ok h
  have hinv₁ := (safe_memberRef.of_ok hinv trivial href).1
  have hframes₁ : m₁.frames = { f with pc := f.pc + (2 : Nat) } :: callers :=
    memberRef_frames href hframes
  exact (receiverCall_setUp hinv₁ hframes₁ h).after

/-- The two bytes that carry nothing are read as well. -/
theorem interfaceCall_setUp (hinv : m.Inv ctx.host) (hframes : m.frames = f :: callers)
    (h : interfaceCall ctx m = .ok (method, args) m') : SetUp 1 4 f callers (method, args) m' := by
  obtain ⟨ref, m₁, href, h⟩ := of_bind_ok h
  have hinv₁ := (safe_memberRef.of_ok hinv trivial href).1
  have hframes₁ : m₁.frames = { f with pc := f.pc + 2 } :: callers := memberRef_frames href hframes
  obtain ⟨_, m₂, hfirst, h⟩ := of_bind_ok h
  obtain ⟨_, m₃, hsecond, h⟩ := of_bind_ok h
  have hinv₂ := ((safe_onFrame FrameM.keeps_u1).of_ok hinv₁ trivial hfirst).1
  have hinv₃ := ((safe_onFrame FrameM.keeps_u1).of_ok hinv₂ trivial hsecond).1
  obtain ⟨_, hu1, hframes₂⟩ := onFrame_ok hframes₁ hfirst
  rw [(FrameM.of_u1_ok hu1).2.2] at hframes₂
  obtain ⟨_, hu1', hframes₃⟩ := onFrame_ok hframes₂ hsecond
  have hframes₃' : m₃.frames = { f with pc := f.pc + (4 : Nat) } :: callers := by
    rw [hframes₃, (FrameM.of_u1_ok hu1').2.2]
    simp only [Int.add_assoc]
    rfl
  exact (receiverCall_setUp hinv₃ hframes₃' h).after

theorem specialCall_setUp (hinv : m.Inv ctx.host) (hframes : m.frames = f :: callers)
    (h : specialCall ctx m = .ok (method, args) m') : SetUp 1 2 f callers (method, args) m' := by
  obtain ⟨ref, m₁, href, h⟩ := of_bind_ok h
  have hinv₁ := (safe_memberRef.of_ok hinv trivial href).1
  have hframes₁ : m₁.frames = { f with pc := f.pc + 2 } :: callers := memberRef_frames href hframes
  obtain ⟨⟨r, args₁⟩, m₂, hpop, h⟩ := of_bind_ok h
  obtain ⟨signature, rest, hparse, hlength, hreceiver, hstack, hframes₂⟩ := popCall_ok hpop hframes₁
  have hinv₂ := ((safe_popCall ref).of_ok hinv₁ trivial hpop).1
  have hstarted : m₂.classes.Started f.method.owner :=
    hinv₂.frames { f with stack := rest, pc := f.pc + 2 } (by rw [hframes₂]; exact List.mem_cons_self)
  dsimp only at h
  rw [bind_of_ok (currentFrame_ok hframes₂)] at h
  obtain ⟨caller, m₃, hclass, hsearch⟩ := of_bind_ok h
  obtain ⟨hinv₃, _, hknown⟩ := (sound_classAt _).of_ok hinv₂ hstarted hclass
  obtain ⟨rfl, _⟩ := classAt_ok hclass
  obtain ⟨rfl, hfind⟩ := of_found_ok hsearch
  obtain rfl := Except.ok.inj (hparse.symm.trans (resolveSpecial_signature hinv₃ hknown hfind))
  have hframes' := frames_of_respects (respects_resolveSpecial _ _) hfind hframes₂
  exact ⟨hlength.trans (Nat.add_comm _ _), fun _ => ⟨r, hreceiver⟩, rest, hstack, hframes'⟩

omit [SoundContext ctx] in
theorem staticCall_setUp (hframes : m.frames = f :: callers)
    (h : staticCall ctx m = .ok (method, args) m') : SetUp 0 2 f callers (method, args) m' := by
  obtain ⟨ref, m₁, href, h⟩ := of_bind_ok h
  have hframes₁ : m₁.frames = { f with pc := f.pc + 2 } :: callers := memberRef_frames href hframes
  obtain ⟨c, m₂, hload, h⟩ := of_bind_ok h
  obtain ⟨found, m₃, hfind, h⟩ := of_bind_ok h
  cases found with
  | none => contradiction
  | some method₁ =>
      obtain ⟨method₂, m₄, hfound, h⟩ := of_bind_ok h
      obtain ⟨rfl, rfl⟩ := EStateM.Result.ok.inj hfound
      have hframes₂ := frames_of_respects (respects_loadClass _) hload hframes₁
      have hframes₃ := frames_of_respects (respects_resolveMethod _ _) hfind hframes₂
      split at h
      case isFalse => exact absurd h malformed_ne_ok
      case isTrue =>
        obtain ⟨popped, m₅, hpop, h⟩ := of_bind_ok h
        obtain ⟨hcall, rfl⟩ := EStateM.Result.ok.inj h
        obtain ⟨rfl, rfl⟩ := Prod.mk.inj hcall
        obtain ⟨g, hpopN, hframes₄⟩ := onFrame_ok hframes₃ hpop
        obtain ⟨hlength, rest, hstack, rfl⟩ := of_popN_ok hpopN
        exact ⟨hlength.trans (Nat.zero_add _).symm, fun h => by contradiction, rest, hstack, hframes₄⟩

end Targets

section Returning

open Reference

variable {ctx : Context} {m m' : Machine} {method : Method} {args : List Value} {v : Value}
  {locals : Array Value} {f : Frame} {callers : List Frame}

theorem stackOverflow_ne_ok {α : Type} {a : α} : stackOverflow ctx m ≠ .ok a m' := by
  intro h
  unfold stackOverflow at h
  split at h
  case h_1 hthrow => exact throwNew_ne_ok _ _ _ _ _ hthrow
  case h_2 => contradiction

theorem withFrame_ok_iff {α : Type} {x : Exec α} {a : α} : withFrame f x ctx m = .ok a m' ↔
    ∃ m₂, x ctx { m with frames := f :: m.frames } = .ok a m₂ ∧
      m' = { m₂ with frames := m.frames } := by
  unfold withFrame
  dsimp only
  cases hx : x ctx { m with frames := f :: m.frames } with
  | ok b m₂ => simp [eq_comm]
  | error e m₂ => cases e <;> simp

/-- A method that may be activated is run in an activation of its own. -/
theorem invoke_of_enters (hlocals : layoutLocals method args = some locals)
    (habstract : method.flags.isAbstract = false)
    (henters : (Frame.enter method locals m.frames).Enters m) :
    Interpreter.invoke method args ctx m =
      withFrame (Frame.enter method locals m.frames) (runBody method locals) ctx m := by
  have hdeep : ¬(decide (m.maxDepth < ((depthOf m.frames + 1 : Nat) : Int)) &&
      !m.handlingOverflow) = true := by
    rw [Bool.and_eq_true, decide_eq_true_eq, Bool.not_eq_true']
    exact fun ⟨hbeyond, hguard⟩ => absurd (henters.within hguard) (Int.not_le.mpr hbeyond)
  rw [Interpreter.invoke, habstract, if_neg Bool.false_ne_true, bind_of_ok (atLimit_eq m),
    if_neg hdeep, activate_eq hlocals]

/-- A call comes to its end only if its method may be activated. -/
theorem invoke_enters (h : Interpreter.invoke method args ctx m = .ok v m') :
    method.flags.isAbstract = false ∧ (Frame.enter method locals m.frames).Enters m := by
  rw [Interpreter.invoke] at h
  split at h
  case isTrue => contradiction
  case isFalse habstract =>
    rw [bind_of_ok (atLimit_eq m)] at h
    split at h
    case isTrue => exact absurd h stackOverflow_ne_ok
    case isFalse hdeep =>
      refine ⟨Bool.eq_false_iff.mpr habstract, rfl, fun hguard => ?_⟩
      rw [hguard, Bool.not_false, Bool.and_true, decide_eq_true_eq] at hdeep
      exact Int.not_lt.mp hdeep

/-- An activation once a method that it has called has come to its end: the result is on its operand
stack, if the method has one. -/
def Frame.resumed (f : Frame) (method : Method) (result : Value) : Frame :=
  { f with stack := if method.signature.returnsValue then result :: f.stack else f.stack }

theorem pushResult_eq (hframes : m.frames = f :: callers) :
    (if method.signature.returnsValue then push v else pure () : Exec Unit) ctx m =
      .ok () { m with frames := f.resumed method v :: callers } := by
  unfold Frame.resumed
  cases method.signature.returnsValue with
  | true =>
      simp only [if_true]
      unfold push onFrame
      rw [hframes]
      rfl
  | false =>
      have hsame : m = { m with frames := f :: callers } := by rw [← hframes]
      exact congrArg (EStateM.Result.ok ()) hsame

end Returning

open Reference in
/-- What finds out the method and the arguments of a call instruction. -/
def Opcode.callTarget? : Opcode → Option (Exec Call)
  | .invokestatic => some staticCall
  | .invokevirtual => some virtualCall
  | .invokeinterface => some interfaceCall
  | .invokespecial => some specialCall
  | _ => none

section Instructions

variable {ctx : Context} {m m' : Machine} {f : Frame} {callers : List Frame} {op : Opcode}
  {target : Exec Reference.Call} {method : Method} {args : List Value} {o : Outcome}

theorem setUp_of_target [SoundContext ctx] [RespectingContext .sameFrames ctx]
    (hinv : m.Inv ctx.host) (hframes : m.frames = f :: callers) (hop : op.callTarget? = some target)
    (h : target ctx m = .ok (method, args) m') : ∃ n, op.operands = .fixed n ∧
      SetUp (if op = .invokestatic then 0 else 1) n f callers (method, args) m' := by
  unfold Opcode.callTarget? at hop
  split at hop
  case h_1 =>
    obtain rfl := Option.some.inj hop
    exact ⟨2, rfl, staticCall_setUp hframes h⟩
  case h_2 =>
    obtain rfl := Option.some.inj hop
    exact ⟨2, rfl, virtualCall_setUp hinv hframes h⟩
  case h_3 =>
    obtain rfl := Option.some.inj hop
    exact ⟨4, rfl, interfaceCall_setUp hinv hframes h⟩
  case h_4 =>
    obtain rfl := Option.some.inj hop
    exact ⟨2, rfl, specialCall_setUp hinv hframes h⟩
  case h_5 => contradiction

theorem execute_call (hop : op.callTarget? = some target) :
    Step.execute op = Step.thenNext (Reference.invoke target) := by
  unfold Opcode.callTarget? at hop
  split at hop
  case h_5 => contradiction
  all_goals
    obtain rfl := Option.some.inj hop
    rfl

/-- What a call instruction does once its call is set up. -/
theorem execute_call_iff {m₁ : Machine} (hop : op.callTarget? = some target)
    (hbinds : target ctx m = .ok (method, args) m₁) (hframes : m₁.frames = f :: callers)
    (hcall : Respects .sameFrames ctx (invokeMethod method args)) :
    Step.execute op ctx m = .ok o m' ↔ o = .next ∧ ∃ v m₂,
      invokeMethod method args ctx m₁ = .ok v m₂ ∧
      m' = { m₂ with frames := f.resumed method v :: callers } := by
  have hreturn : ∀ {v : Value} {m₂ : Machine}, invokeMethod method args ctx m₁ = .ok v m₂ →
      Step.execute op ctx m = .ok .next { m₂ with frames := f.resumed method v :: callers } := by
    intro v m₂ hrun
    have hinvoke : Reference.invoke target ctx m =
        .ok () { m₂ with frames := f.resumed method v :: callers } := by
      rw [Reference.invoke, bind_of_ok hbinds]
      dsimp only
      rw [bind_of_ok hrun]
      exact pushResult_eq (frames_of_respects hcall hrun hframes)
    rw [execute_call hop]
    exact bind_of_ok hinvoke
  constructor
  · intro h
    have hcalled := h
    rw [execute_call hop] at hcalled
    obtain ⟨_, m₃, hinvoke, _⟩ := of_bind_ok hcalled
    rw [Reference.invoke, bind_of_ok hbinds] at hinvoke
    obtain ⟨v, m₂, hrun, _⟩ := of_bind_ok hinvoke
    obtain ⟨rfl, rfl⟩ := EStateM.Result.ok.inj (h.symm.trans (hreturn hrun))
    exact ⟨rfl, v, m₂, hrun, rfl⟩
  · rintro ⟨rfl, v, m₂, hrun, rfl⟩
    exact hreturn hrun

end Instructions

/-- The convention by which call instructions call. An instruction that finds a method, a static one
exactly if it is the instruction for static calls, has taken the arguments and below them a receiver, which
is an object, off the operand stack of its activation. The method starts on them in an activation of its
own: the receiver in the first local variable, each argument, cut down to its type, where those before it
leave off, twice if it is a long or double, and null in all other local variables, of which there are as
many as the method asks for or the arguments need. The instruction comes to its end exactly if the method
may be activated and comes to its end; then the caller goes on with its local variables as they were and
what was below the arguments on its operand stack, under the result if the method has one. -/
theorem calls_keep_convention {host : Host} {steps nesting : Nat} {op : Opcode}
    {target : Exec Reference.Call} {m m₁ : Machine} {f : Frame} {callers : List Frame} {method : Method}
    {args : List Value} (hinv : m.Inv host) (hframes : m.frames = f :: callers)
    (hop : op.callTarget? = some target)
    (hbinds : target (Session.context host steps (nesting + 1)) m = .ok (method, args) m₁)
    (hstatic : method.isStatic = true ↔ op = .invokestatic) :
    ∃ (n : Nat) (rest : List Value) (locals : Array Value), op.operands = .fixed n ∧
      f.stack = args.reverse ++ rest ∧
      (op ≠ .invokestatic → ∃ r, args[0]? = some (.ref r)) ∧
      method.LaysOut args locals ∧
      let caller : Frame := { f with stack := rest, pc := f.pc + n }
      let entered : Frame := .enter method locals (caller :: callers)
      m₁.frames = caller :: callers ∧
      (method.flags.isAbstract = false → entered.Enters m₁ →
        invokeMethod method args (Session.context host steps (nesting + 1)) m₁ =
          withFrame entered (runBody method locals) (Session.context host steps nesting) m₁) ∧
      ∀ o m', Step.execute op (Session.context host steps (nesting + 1)) m = .ok o m' ↔
        o = .next ∧ method.flags.isAbstract = false ∧ entered.Enters m₁ ∧ ∃ result m₂,
          runBody method locals (Session.context host steps nesting)
            { m₁ with frames := entered :: caller :: callers } = .ok result m₂ ∧
          m' = { m₂ with frames := { caller with stack :=
            if method.signature.returnsValue then result :: rest else rest } :: callers } := by
  have hinv' : m.Inv (Session.context host steps (nesting + 1)).host := by rwa [context_host]
  obtain ⟨n, hn, hsetUp⟩ := setUp_of_target hinv' hframes hop hbinds
  have hreceivers : (if op = .invokestatic then 0 else 1) = method.receivers :=
    if_congr hstatic.symm rfl rfl
  rw [hreceivers] at hsetUp
  obtain ⟨locals, hlocals, hlays⟩ := layoutLocals_lays hsetUp.count
  obtain ⟨rest, hstack, hframes₁⟩ := hsetUp.taken
  refine ⟨n, rest, locals, hn, hstack, fun hne => hsetUp.receiver ?_, hlays, ?_⟩
  · rw [← hreceivers, if_neg hne]
  intro caller entered
  have hentered : entered = Frame.enter method locals m₁.frames := by rw [hframes₁]
  have hcall : method.flags.isAbstract = false → entered.Enters m₁ →
      invokeMethod method args (Session.context host steps (nesting + 1)) m₁ =
        withFrame entered (runBody method locals) (Session.context host steps nesting) m₁ := by
    rw [hentered]
    exact invoke_of_enters hlocals
  refine ⟨hframes₁, hcall, fun o m' => ?_⟩
  rw [execute_call_iff hop hbinds hframes₁ (respects_invokeMethod method args)]
  constructor
  · rintro ⟨rfl, v, m₂, hrun, rfl⟩
    have hended : Interpreter.invoke method args (Session.context host steps nesting) m₁ = .ok v m₂ :=
      hrun
    obtain ⟨habstract, henters⟩ := invoke_enters hended
    rw [← hentered] at henters
    rw [hcall habstract henters, withFrame_ok_iff] at hrun
    obtain ⟨m₃, hbody, rfl⟩ := hrun
    rw [hframes₁] at hbody
    exact ⟨rfl, habstract, henters, v, m₃, hbody, rfl⟩
  · rintro ⟨rfl, habstract, henters, v, m₃, hbody, rfl⟩
    refine ⟨rfl, v, { m₃ with frames := m₁.frames }, ?_, rfl⟩
    rw [hcall habstract henters, withFrame_ok_iff, hframes₁]
    exact ⟨m₃, hbody, rfl⟩

/-- A class with a method that calls the other. -/
def scaleFile : ClassFile where
  minor := 0
  major := 52
  pool := #[.blank, .utf8 "Scale", .link .classRef 1 0, .utf8 "weigh", .utf8 "(JB)J",
    .link .nameAndType 3 4, .link .methodref 2 5]
  flags := ⟨0x21⟩
  name := "Scale"
  superName := []
  interfaces := []
  fields := []
  methods := [⟨"weigh", "(JB)J", ⟨9⟩, some ⟨2, 4, #[0x1E, 0xAD], [], []⟩, []⟩,
    ⟨"use", "()V", ⟨9⟩, some ⟨3, 0, #[0xB8, 0, 6, 0xB1], [], []⟩, []⟩]
  sourceFile := []

/-- A host with that class only. -/
def scaleHost : Host where
  provider := some fun name => if name = "Scale" then .ok scaleFile else .error "not found"
  currentTimeMillis := 0
  nanoTime := 0

/-- The method that is called, with room for one local variable more than its arguments need. -/
def weigh : Method :=
  ⟨"LScale;", "Scale", "weigh", "(JB)J", ⟨9⟩, some ⟨2, 4, #[0x1E, 0xAD], [], []⟩,
    ⟨["J", "B"], "J", "(JB)J"⟩, scaleFile⟩

/-- The method that calls it. -/
def useScale : Method :=
  ⟨"LScale;", "Scale", "use", "()V", ⟨9⟩, some ⟨3, 0, #[0xB8, 0, 6, 0xB1], [], []⟩,
    ⟨[], "V", "()V"⟩, scaleFile⟩

/-- The record of the class once it is loaded. -/
def scale : RuntimeClass :=
  { RuntimeClass.bare "LScale;" with
    flags := ⟨0x21⟩
    file := some scaleFile
    methods := [weigh, useScale]
    statics := some ⟨1⟩
    state := .initialized }

/-- An activation about to call with a long and an int that is too large for a byte. -/
def weighing : Frame :=
  { Frame.enter useScale #[] [] with stack := [.int 300, .long 5, .null], pc := 1 }

theorem scaleHost_loads : ∃ m : Machine, m.Inv scaleHost ∧ m.frames = [] ∧
    m.classes[scale.descriptor]? = some scale := by
  have hname : Descriptor.ofInternal "Scale" = scale.descriptor := by decide +kernel
  have hdefine : define scaleHost scale.descriptor =
      .ok { scale with statics := none, state := .linking } := rfl
  have hquiet : RuntimeClass.IsQuiet { scale with statics := none, state := .linking } := by
    refine ⟨fun file hfile => ?_, rfl⟩
    obtain rfl := Option.some.inj hfile
    simp [scaleFile]
  obtain ⟨m, hused, hscale, _, hfresh⟩ :=
    used_of_first (fun _ _ => True) hname hdefine rfl rfl hquiet trivial
  exact ⟨m, hused.reachable.inv, by rw [hfresh]; rfl, hscale⟩

/-- The operands of that call name the method, which is found in the only class there is. -/
theorem weighing_binds : ∃ m m₁ : Machine, m.Inv scaleHost ∧ m.frames = [weighing] ∧
    Reference.staticCall (Session.context scaleHost 9 9) m = .ok (weigh, [.long 5, .int 300]) m₁ := by
  obtain ⟨m₀, hinv₀, hframes₀, hscale⟩ := scaleHost_loads
  let ref : MemberRef := ⟨"Scale", "weigh", "(JB)J"⟩
  let m : Machine := { m₀ with frames := [weighing] }
  let m₁ : Machine := { m₀ with frames := [{ weighing with pc := 3 }] }
  have hinv : m.Inv scaleHost := by
    have hpushed := hinv₀.pushFrame (f := weighing) ⟨_, hscale, trivial⟩
    rwa [hframes₀] at hpushed
  have href : Reference.memberRef (Session.context scaleHost 9 9) m = .ok ref m₁ := rfl
  have hscale₁ : m₁.classes[scale.descriptor]? = some scale := hscale
  have hload : loadClass ref.owner (Session.context scaleHost 9 9) m₁ = .ok scale m₁ :=
    classFor_initialized scaleHost 8 8 hscale₁ rfl
  have hfind : resolveMethod scale.descriptor ref (Session.context scaleHost 9 9) m₁ =
      .ok (some weigh) (m₁.remembering scale.descriptor ref) :=
    resolveMethod_own scaleHost hscale₁ rfl rfl rfl Std.HashMap.getElem?_empty rfl 8 9
  have hbinds : Reference.staticCall (Session.context scaleHost 9 9) m =
      .ok (weigh, [.long 5, .int 300]) { m₁.remembering scale.descriptor ref with
        frames := [{ weighing with stack := [.null], pc := 3 }] } := by
    rw [Reference.staticCall, bind_of_ok href, bind_of_ok hload, bind_of_ok hfind]
    rfl
  exact ⟨m, _, hinv, rfl, hbinds⟩

/-- The long takes two local variables, the byte is cut down, and the last variable is free. -/
theorem calls_keep_convention_weigh : ∃ (m m₁ : Machine) (locals : Array Value),
    m.Inv scaleHost ∧ m.frames = [weighing] ∧
    Reference.staticCall (Session.context scaleHost 9 9) m = .ok (weigh, [.long 5, .int 300]) m₁ ∧
    m₁.frames = [{ weighing with stack := [.null], pc := 3 }] ∧ locals.size = 4 ∧
    locals[0]? = some (.long 5) ∧ locals[1]? = some (.long 5) ∧ locals[2]? = some (.int 44) ∧
    locals[3]? = some .null := by
  obtain ⟨m, m₁, hinv, hframes, hbinds⟩ := weighing_binds
  obtain ⟨n, rest, locals, hn, hstack, _, hlays, hframes₁, _⟩ :=
    calls_keep_convention hinv hframes rfl hbinds (iff_of_true rfl rfl)
  obtain rfl : 2 = n := Opcode.Operands.fixed.inj hn
  have hwhole : [.int 300, .long 5] ++ [.null] = [.int 300, .long 5] ++ rest := hstack
  obtain rfl := List.append_cancel_left hwhole
  obtain ⟨a, ha, hfirst, hsecond⟩ := hlays.argument (i := 0) rfl
  obtain ⟨b, hb, hthird, _⟩ := hlays.argument (i := 1) rfl
  obtain rfl := Option.some.inj ha
  obtain rfl := Option.some.inj hb
  have hsize : locals.size = 4 := hlays.size.trans (by decide)
  have hfree : ¬weigh.Fills 3 := by
    rintro (h | ⟨i, T, hT, hplace⟩)
    · contradiction
    · match i, hT with
      | 0, rfl => revert hplace; decide
      | 1, rfl => revert hplace; decide
  exact ⟨m, m₁, locals, hinv, hframes, hbinds, hframes₁, hsize, hfirst, hsecond (by decide), hthird,
    hlays.others (hsize ▸ by decide) hfree⟩

end ClassEngine
